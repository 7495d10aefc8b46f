import SpudLib.Tube.Mirroring

/-!
# What the receive loop allocates

`tube_manager_loop` as a whole, datagram after datagram, with its variable `msg`
and the trees that `cn_cbor_decode` allocates for it.  The exit at `cleanup`
frees the tree, the exit at `error` does not, and neither destroys a tube that
was made and not yet added.
-/

namespace SpudLib

open TubeManager

/-- The variable `msg` of the loop: pointers to a header and to a tree. -/
structure MessagePointers where
  header : Option SpudHeader
  cbor : Option Nat

/-- A call of `tube_manager_loop`, and what it returned. -/
structure Receiver where
  mgr : TubeManager
  trees : Memory Cbor
  msg : MessagePointers
  returned : Option Bool

/-- What one turn of the loop meets: `tube_manager_wait` stops it or lets it fail, so does
`recvmsg` or `gettimeofday`, a signal interrupts `recvmsg`, or a datagram arrives; or the
manager is to stop. -/
inductive Turn where
  | finished
  | stopped
  | failed
  | interrupted
  | datagram (env : Environment) (received : Reception)

namespace Receiver

def parse (receiver : Receiver) (library : CborLibrary) (payload : List UInt8) :
    Bool × Receiver :=
  if !spudIsSpud payload then (false, receiver)
  else if payload.length > spudHeaderSize then
    match library.decode (payload.drop spudHeaderSize) with
    | .error _ => (false, { receiver with msg := ⟨some (.ofBytes payload), none⟩ })
    | .ok cbor =>
        (true, { receiver with
          trees := receiver.trees.alloc cbor
          msg := ⟨some (.ofBytes payload), some receiver.trees.fresh⟩ })
  else (true, { receiver with msg := ⟨some (.ofBytes payload), none⟩ })

/-- `spud_unparse` on `msg`. -/
def spudUnparse (receiver : Receiver) : Exec Receiver :=
  match receiver.msg.cbor with
  | none => pure { receiver with msg := ⟨none, none⟩ }
  | some tree => do
      let trees ← receiver.trees.free tree
      pure { receiver with trees := trees, msg := ⟨none, none⟩ }

def message (receiver : Receiver) : Exec SpudMessage :=
  match receiver.msg.header with
  | none => .error .nullDereference
  | some header =>
      match receiver.msg.cbor with
      | none => pure ⟨header, none⟩
      | some tree => do
          let cbor ← receiver.trees.read tree
          pure ⟨header, some cbor⟩

/-- The time of a datagram becomes the manager's. -/
def timed (receiver : Receiver) (env : Environment) (received : Reception) : Receiver :=
  { receiver with mgr := receiver.mgr.at env received }

/-- The body of the loop for a datagram. -/
def take (receiver : Receiver) (library : CborLibrary) (hasErr : Bool) (env : Environment)
    (received : Reception) : Exec Receiver :=
  if received.buf.length = 0 then .error .assertFailed
  else
    match (receiver.timed env received).parse library received.buf with
    | (false, parsed) => if hasErr then parsed.spudUnparse else .error .nullDereference
    | (true, parsed) => do
        let msg ← parsed.message
        let (verdict, mgr) ← (handleMessage env received msg).straight parsed.mgr
        match verdict with
        | .next => spudUnparse { parsed with mgr := mgr }
        | .failed => pure { parsed with mgr := mgr, returned := some false }

def turn (library : CborLibrary) (hasErr : Bool) (receiver : Receiver) : Turn → Exec Receiver
  | .finished => pure { receiver with returned := some true }
  | .stopped => spudUnparse { receiver with mgr := { receiver.mgr with keepGoing := false } }
  | .failed => pure { receiver with returned := some false }
  | .interrupted => pure receiver
  | .datagram env received => receiver.take library hasErr env received

/-- The loop has not returned, and goes on as long as the manager does; datagrams are not
empty, and a rejected one needs an `err`; an array of `2 ^ 30` buckets cannot be allocated. -/
def Enabled (library : CborLibrary) (hasErr : Bool) (receiver : Receiver) : Turn → Prop
  | .finished => receiver.returned = none ∧ receiver.mgr.keepGoing = false
  | .datagram env received =>
      receiver.returned = none ∧ receiver.mgr.keepGoing = true ∧ received.bytes ≠ [] ∧
        (hasErr = true ∨ ∃ msg, spudParse library received.buf = .ok msg) ∧
        ∀ size, 2 ^ 30 ≤ size → env.calloc size = false
  | _ => receiver.returned = none ∧ receiver.mgr.keepGoing = true

def system (library : CborLibrary) (hasErr : Bool) : System Receiver Turn where
  Enabled := Enabled library hasErr
  step := turn library hasErr

def Starts (receiver : Receiver) : Prop :=
  receiver.mgr.WellFormed ∧ receiver.trees = Memory.empty ∧ receiver.msg = ⟨none, none⟩ ∧
    receiver.returned = none

/-- Every tree is freed, and every tube from `base` on is in the table or destroyed, not
both. -/
structure Tidy (receiver : Receiver) (base : Nat) : Prop where
  trees : ∀ tree, tree < receiver.trees.fresh → receiver.trees.Freed tree
  tubes : ∀ t, base ≤ t → t < receiver.mgr.tubes.fresh →
    Xor (receiver.mgr.InTable t) (receiver.mgr.tubes.Freed t)

end Receiver

def Environment.Fails (env : Environment) (cmd : SpudCommand) (state : TubeState) : Prop :=
  match cmd with
  | .spudData => state = .running ∧ env.granted (.moment .data) = false
  | .spudClose => state ≠ .unknown ∧ env.granted (.moment .close) = false
  | .spudOpen => False
  | .spudAck => state = .opening ∧ env.granted (.moment .running) = false

namespace TubeManager

def Admits (mgr : TubeManager) (env : Environment) : Prop :=
  env.granted .pktinfo = true ∧ mgr.table.Accepts env.calloc (env.granted .node)

def Breaks (mgr : TubeManager) (env : Environment) (msg : SpudMessage) : Prop :=
  match mgr.lookup msg.header.tubeId with
  | .ok (some t) => ∃ cell, mgr.tubes.cells t = some cell ∧
      env.Fails (.ofFlags msg.header.flags) cell.state
  | .ok none => mgr.Responds msg ∧
      ¬ (env.granted .tube = true ∧ mgr.Admits env ∧ env.granted (.moment .add) = true)
  | .error _ => False

def Strands (mgr : TubeManager) (env : Environment) (msg : SpudMessage) : Prop :=
  mgr.lookup msg.header.tubeId = .ok none ∧ mgr.Responds msg ∧ env.granted .tube = true ∧
    ¬ mgr.Admits env

def Retains (mgr : TubeManager) (find : SpudTubeId → Option Nat) (base : Nat) : Prop :=
  ∀ t, base ≤ t → (∃ id, find id = some t) ∨ mgr.tubes.cells t = none

section Messages

variable {mgr : TubeManager} {env : Environment} {find : SpudTubeId → Option Nat} {base t : Nat}
  {received : Reception} {msg : SpudMessage} {id : SpudTubeId} {cell : Tube}

theorem obey_retains (holds : mgr.Holds find) (kept : mgr.Retains find base) {d : TubeEventData}
    (stored : find id = some d.t) (found : mgr.tubes.cells d.t = some cell) (cmd : SpudCommand) :
    ∃ verdict after later, (obey env d cmd).straight mgr = .ok (verdict, after) ∧
      after.Holds later ∧ (verdict = .failed ↔ env.Fails cmd cell.state) ∧
      after.tubes.fresh = mgr.tubes.fresh ∧ after.Retains later base := by
  have refuses : ∀ event, env.verdict event = .failed ↔
      env.granted (.moment event) = false := by
    intro event
    unfold Environment.verdict
    cases env.granted (.moment event) <;> simp
  have others : ∀ changed : Tube, (mgr.setTube d.t changed).Retains find base := by
    intro changed t new
    rcases kept t new with found | dead
    · exact .inl found
    · refine .inr ((Memory.set_cells_of_ne _ _ ?_).trans dead)
      rintro rfl
      cases found.symm.trans dead
  by_cases idle : Environment.acts cmd cell.state = false
  · refine ⟨.next, mgr, find, obey_idle found idle, holds, iff_of_false nofun ?_, rfl, kept⟩
    cases cmd with
    | spudData => exact fun fails => of_decide_eq_false idle fails.1
    | spudClose => exact fun fails => of_decide_eq_false idle fails.1
    | spudOpen => exact fun fails => fails
    | spudAck => exact fun fails => of_decide_eq_false idle fails.1
  · rw [Bool.not_eq_false] at idle
    cases cmd with
    | spudOpen => cases idle
    | spudData =>
      have running : cell.state = .running := of_decide_eq_true idle
      refine ⟨_, _, find, obey_data found running, holds.noted _, ?_, rfl, kept⟩
      rw [refuses]
      exact (and_iff_right running).symm
    | spudAck =>
      have opening : cell.state = .opening := of_decide_eq_true idle
      have changed : (mgr.setTube d.t { cell with state := .running }).Holds find :=
        holds.setTube found (.inl rfl)
      refine ⟨_, _, find, obey_ack found opening, changed.noted _, ?_, rfl, others _⟩
      rw [refuses]
      exact (and_iff_right opening).symm
    | spudClose =>
      have known : cell.state ≠ .unknown := of_decide_eq_true idle
      cases granted : env.granted (.moment .close) with
      | false =>
        refine ⟨_, _, find, obey_close_refused found known granted,
          holds.setTube found (.inl rfl), ?_, rfl, others _⟩
        exact iff_of_true rfl ⟨known, granted⟩
      | true =>
        obtain ⟨_, _, later, returned, holdsAfter, confined, _⟩ :=
          @obey_confined mgr env find id holds d stored .spudClose
        obtain ⟨cell', found', own⟩ := holds.live id d.t stored
        obtain rfl : cell' = cell := Option.some.inj (found'.symm.trans found)
        obtain ⟨table, closed, registers⟩ :=
          @obey_close mgr env find d cell' holds (own ▸ stored) found known granted
        cases returned.symm.trans closed
        refine ⟨_, _, later, closed, holdsAfter, iff_of_false nofun ?_, rfl, ?_⟩
        · rintro ⟨_, refused⟩
          cases granted.symm.trans refused
        · intro t new
          by_cases here : t = d.t
          · rw [here]
            exact .inr (Memory.erase_cells_self ..)
          · rcases kept t new with ⟨other, member⟩ | dead
            · refine .inl ⟨other, (confined.lookups other ?_).trans member⟩
              rintro rfl
              exact here (Option.some.inj (member.symm.trans stored))
            · exact .inr ((Memory.erase_cells_of_ne _ here).trans dead)

theorem not_retains_created (holds : mgr.Holds find) (reached : base ≤ mgr.tubes.fresh)
    (cell : Tube) : ¬ (mgr.created cell).Retains find base := by
  intro kept
  rcases kept mgr.tubes.fresh reached with ⟨id, member⟩ | dead
  · exact holds.unused id member
  · cases (created_cells mgr cell).symm.trans dead

theorem Retains.created (kept : mgr.Retains find base) {after : TubeManager}
    {later : SpudTubeId → Option Nat} (tubes : after.tubes = mgr.tubes.alloc cell)
    (added : ∃ id, later id = some mgr.tubes.fresh)
    (others : ∀ id t, find id = some t → later id = some t) : after.Retains later base := by
  intro t new
  by_cases here : t = mgr.tubes.fresh
  · rw [here]
    exact .inl added
  · rcases kept t new with ⟨id, member⟩ | dead
    · exact .inl ⟨id, others id t member⟩
    · refine .inr ?_
      rw [tubes]
      exact (Memory.alloc_cells_of_ne _ _ here).trans dead

theorem getStarted_retains (holds : mgr.Holds find) (kept : mgr.Retains find base)
    (reached : base ≤ mgr.tubes.fresh) (missing : find id = none)
    (refused : ∀ size, 2 ^ 30 ≤ size → env.calloc size = false) :
    ∃ started after later, (getStarted env received id).straight mgr = .ok (started, after) ∧
      after.Holds later ∧ mgr.tubes.fresh ≤ after.tubes.fresh ∧
      (started = .error .failed ↔
        ¬ (env.granted .tube = true ∧ mgr.Admits env ∧ env.granted (.moment .add) = true)) ∧
      (after.Retains later base ↔ ¬ (env.granted .tube = true ∧ ¬ mgr.Admits env)) ∧
      ∀ t, started = .ok t → after.tubes.cells t = some (received.tube id) := by
  by_cases granted : env.granted .tube = true
  · have holdsBare := holds.created (received.bareTube env id)
    have grown : mgr.tubes.fresh ≤ mgr.tubes.fresh + 1 := Nat.le_succ _
    by_cases copied : env.granted .pktinfo = true
    · obtain ⟨answer, table, returned, registers, accepted⟩ :=
        getStarted_added holds received missing refused granted copied
      cases answer with
      | false =>
        have denied : ¬ mgr.Admits env := fun admits => nomatch accepted.mpr admits.2
        rw [Bool.false_and, if_neg Bool.false_ne_true] at returned
        refine ⟨_, _, find, returned, ⟨registers, holdsBare.live⟩, grown, ?_, ?_, nofun⟩
        · exact iff_of_true rfl fun all => denied all.2.1
        · exact iff_of_false (not_retains_created holds reached _) fun no => no ⟨granted, denied⟩
      | true =>
        have admits : mgr.Admits env := ⟨copied, accepted.mp rfl⟩
        have others : ∀ other t, find other = some t →
            Function.update find id (some mgr.tubes.fresh) other = some t := by
          intro other t member
          rw [Function.update_of_ne ?_, member]
          rintro rfl
          cases missing.symm.trans member
        have live : ∀ cell : Tube, cell.id = id → ((mgr.created cell).withTable table).Holds
            (Function.update find id (some mgr.tubes.fresh)) := by
          intro cell own
          have replaced := @Holds.replace (mgr.created cell) env find mgr.tubes.fresh cell
            (holds.created _) table (created_cells mgr cell) holds.unused (own ▸ registers)
          rw [own, missing, evict_none] at replaced
          exact replaced
        have inside : ∃ other, Function.update find id (some mgr.tubes.fresh) other =
            some mgr.tubes.fresh := ⟨id, Function.update_self ..⟩
        rw [Bool.true_and] at returned
        cases triggered : env.granted (.moment .add) with
        | false =>
          rw [triggered, if_neg Bool.false_ne_true] at returned
          refine ⟨_, _, _, returned, live _ rfl, grown, ?_, ?_, nofun⟩
          · exact iff_of_true rfl fun all => nomatch all.2.2
          · exact iff_of_true (kept.created rfl inside others) fun no => no.2 admits
        | true =>
          rw [triggered, if_pos rfl] at returned
          refine ⟨_, _, _, returned, (live _ rfl).noted _, grown, ?_, ?_, ?_⟩
          · refine iff_of_false ?_ fun no => no ⟨granted, admits, rfl⟩
            cases env.answer (received.ack id) <;> simp
          · exact iff_of_true (kept.created rfl inside others) fun no => no.2 admits
          · intro t started
            cases sent : env.answer (received.ack id) with
            | true =>
              rw [sent, if_pos rfl] at started
              cases started
              exact created_cells mgr _
            | false =>
              rw [sent, if_neg Bool.false_ne_true] at started
              cases started
    · have denied : ¬ mgr.Admits env := fun admits => copied admits.1
      refine ⟨.error .failed, _, find, ?_, holdsBare, grown, ?_, ?_, nofun⟩
      · rw [getStarted_created granted, if_neg copied]
        rfl
      · exact iff_of_true rfl fun all => denied all.2.1
      · exact iff_of_false (not_retains_created holds reached _) fun no => no ⟨granted, denied⟩
  · refine ⟨.error .failed, mgr, find, ?_, holds, Nat.le_refl _, ?_, ?_, nofun⟩
    · rw [getStarted, tubeCreate, if_neg granted]
      rfl
    · exact iff_of_true rfl fun all => granted all.1
    · exact iff_of_true kept fun strands => granted strands.1

theorem handleMessage_retains (holds : mgr.Holds find) (kept : mgr.Retains find base)
    (reached : base ≤ mgr.tubes.fresh)
    (refused : ∀ size, 2 ^ 30 ≤ size → env.calloc size = false) :
    ∃ verdict after later,
      (handleMessage env received msg).straight mgr = .ok (verdict, after) ∧
      after.Holds later ∧ mgr.tubes.fresh ≤ after.tubes.fresh ∧
      (verdict = .failed ↔ mgr.Breaks env msg) ∧
      (after.Retains later base ↔ ¬ mgr.Strands env msg) := by
  unfold Breaks Strands
  rw [holds.lookup]
  cases stored : find msg.header.tubeId with
  | some t =>
    obtain ⟨cell, found, _⟩ := holds.live _ t stored
    rw [handleMessage_found holds stored]
    obtain ⟨verdict, after, later, returned, holdsAfter, fails, fresh, keptAfter⟩ :=
      @obey_retains mgr env find base _ cell holds kept ⟨t, msg.cbor, received.source⟩ stored found
        (.ofFlags msg.header.flags)
    refine ⟨verdict, after, later, returned, holdsAfter, fresh.ge, ?_, ?_⟩
    · rw [fails]
      constructor
      · exact fun fails => ⟨cell, found, fails⟩
      · rintro ⟨other, again, fails⟩
        cases found.symm.trans again
        exact fails
    · exact iff_of_true keptAfter fun strands => nomatch strands.1
  | none =>
    by_cases responds : mgr.Responds msg
    · obtain ⟨started, after, later, returned, holdsAfter, fresh, fails, accounts, live⟩ :=
        @getStarted_retains mgr env find base received _ holds kept reached stored refused
      rw [handleMessage_started holds stored responds, straight_bind_of returned]
      simp only [responds, true_and]
      cases started with
      | error verdict =>
        refine ⟨verdict, after, later, rfl, holdsAfter, fresh, ?_, accounts⟩
        rw [← fails, Except.error.injEq]
      | ok t =>
        refine ⟨.next, after, later, obey_idle (live t rfl) rfl, holdsAfter, fresh, ?_, accounts⟩
        rw [← fails]
        exact iff_of_false nofun nofun
    · refine ⟨.next, mgr, find, handleMessage_ignored holds stored responds, holds, Nat.le_refl _,
        iff_of_false nofun fun breaks => responds breaks.1,
        iff_of_true kept fun strands => responds strands.2.1⟩

end Messages

end TubeManager

namespace Receiver

/-- No datagram of the turn leaves the loop at `error` with a tree, or with a tube that is
not in the table. -/
def Clean (library : CborLibrary) (receiver : Receiver) : Turn → Prop
  | .datagram env received => ∀ msg, spudParse library received.buf = .ok msg →
      (msg.cbor ≠ none → ¬ receiver.mgr.Breaks env msg) ∧ ¬ receiver.mgr.Strands env msg
  | _ => True

def holding (receiver : Receiver) (msg : SpudMessage) : Receiver :=
  match msg.cbor with
  | none => { receiver with msg := ⟨some msg.header, none⟩ }
  | some cbor =>
      { receiver with
        trees := receiver.trees.alloc cbor
        msg := ⟨some msg.header, some receiver.trees.fresh⟩ }

section Turns

variable {library : CborLibrary} {hasErr : Bool} {receiver : Receiver} {env : Environment}
  {received : Reception} {msg : SpudMessage} {payload : List UInt8}

theorem parse_ok (parsed : spudParse library payload = .ok msg) :
    receiver.parse library payload = (true, receiver.holding msg) := by
  unfold spudParse at parsed
  unfold parse holding
  split at parsed
  next => cases parsed
  next accepted =>
    rw [if_neg accepted]
    split at parsed
    next long =>
      rw [if_pos long]
      split at parsed
      next cbor decoded =>
        cases parsed
        rw [decoded]
      next => cases parsed
    next short =>
      cases parsed
      rw [if_neg short]

theorem parse_error {reason : SpudError} (rejected : spudParse library payload = .error reason)
    (none : receiver.msg.cbor = none) :
    ∃ msg, receiver.parse library payload = (false, { receiver with msg := msg }) ∧
      msg.cbor = .none := by
  unfold spudParse at rejected
  unfold parse
  split at rejected
  next unaccepted => exact ⟨receiver.msg, if_pos unaccepted, none⟩
  next accepted =>
    rw [if_neg accepted]
    split at rejected
    next long =>
      rw [if_pos long]
      split at rejected
      next => cases rejected
      next reason undecoded =>
        rw [undecoded]
        exact ⟨_, rfl, rfl⟩
    next => cases rejected

@[simp] theorem holding_mgr (receiver : Receiver) (msg : SpudMessage) :
    (receiver.holding msg).mgr = receiver.mgr := by
  unfold holding
  split <;> rfl

theorem message_holding (receiver : Receiver) (msg : SpudMessage) :
    (receiver.holding msg).message = .ok msg := by
  obtain ⟨header, cbor⟩ := msg
  cases cbor with
  | none => rfl
  | some cbor =>
    simp only [holding, message, Memory.read_of_some (Memory.alloc_cells_self _ _), Exec.ok_bind,
      Exec.pure_eq_ok]

def Shed (receiver : Receiver) : Prop := ∀ tree, receiver.trees.cells tree = none

theorem Shed.unparse_holding (shed : receiver.Shed) (msg : SpudMessage) (mgr : TubeManager) :
    ∃ after, spudUnparse { receiver.holding msg with mgr := mgr } = .ok after ∧ after.Shed ∧
      after.mgr = mgr ∧ after.msg.cbor = none ∧ after.returned = receiver.returned := by
  obtain ⟨header, cbor⟩ := msg
  cases cbor with
  | none => exact ⟨_, rfl, shed, rfl, rfl, rfl⟩
  | some cbor =>
    have freed := Memory.free_of_some (Memory.alloc_cells_self receiver.trees cbor)
    refine ⟨{ receiver with
      mgr := mgr
      trees := (receiver.trees.alloc cbor).erase receiver.trees.fresh
      msg := ⟨none, none⟩ }, ?_, ?_, rfl, rfl, rfl⟩
    · simp only [spudUnparse, holding, freed, Exec.ok_bind, Exec.pure_eq_ok]
    · intro tree
      by_cases here : tree = receiver.trees.fresh
      · rw [here]
        exact Memory.erase_cells_self ..
      · refine (Memory.erase_cells_of_ne _ here).trans ?_
        exact (Memory.alloc_cells_of_ne _ _ here).trans (shed tree)

theorem not_shed_holding (some : msg.cbor ≠ none) : ¬ (receiver.holding msg).Shed := by
  obtain ⟨header, cbor⟩ := msg
  cases cbor with
  | none => exact absurd rfl some
  | some cbor =>
    intro shed
    cases (Memory.alloc_cells_self receiver.trees cbor).symm.trans (shed receiver.trees.fresh)

theorem shed_holding (shed : receiver.Shed) (none : msg.cbor = none) :
    (receiver.holding msg).Shed := by
  obtain ⟨header, cbor⟩ := msg
  cases none
  exact shed

structure Idle (receiver : Receiver) (base : Nat) : Prop where
  tubes : ∃ find, receiver.mgr.Holds find ∧ receiver.mgr.Retains find base
  reached : base ≤ receiver.mgr.tubes.fresh
  shed : receiver.Shed
  empty : receiver.msg.cbor = none

variable {base : Nat} {find : SpudTubeId → Option Nat}

theorem tidy_iff (holds : receiver.mgr.Holds find) :
    receiver.Tidy base ↔ receiver.Shed ∧ receiver.mgr.Retains find base := by
  have inTable : ∀ t, receiver.mgr.InTable t ↔ ∃ id, find id = some t := by
    intro t
    unfold TubeManager.InTable
    simp only [holds.lookup, Except.ok.injEq]
  constructor
  · rintro ⟨trees, tubes⟩
    refine ⟨fun tree => ?_, fun t new => ?_⟩
    · by_cases old : tree < receiver.trees.fresh
      · exact (trees tree old).2
      · exact receiver.trees.unallocated tree (Nat.le_of_not_lt old)
    · by_cases old : t < receiver.mgr.tubes.fresh
      · rcases tubes t new old with ⟨inside, _⟩ | ⟨freed, _⟩
        · exact .inl ((inTable t).mp inside)
        · exact .inr freed.2
      · exact .inr (receiver.mgr.tubes.unallocated t (Nat.le_of_not_lt old))
  · rintro ⟨shed, kept⟩
    refine ⟨fun tree old => ⟨old, shed tree⟩, fun t new old => ?_⟩
    rcases kept t new with member | dead
    · refine .inl ⟨(inTable t).mpr member, fun freed => ?_⟩
      obtain ⟨id, stored⟩ := member
      obtain ⟨cell, found, _⟩ := holds.live id t stored
      cases found.symm.trans freed.2
    · refine .inr ⟨⟨old, dead⟩, fun inside => ?_⟩
      obtain ⟨id, stored⟩ := (inTable t).mp inside
      obtain ⟨cell, found, _⟩ := holds.live id t stored
      cases found.symm.trans dead

theorem Idle.tidy (idle : receiver.Idle base) : receiver.Tidy base := by
  obtain ⟨find, holds, kept⟩ := idle.tubes
  exact (tidy_iff holds).mpr ⟨idle.shed, kept⟩

/-- What a turn leaves: nothing, and the loop goes on, or it has returned and left
something behind unless the turn was clean. -/
def Settles (library : CborLibrary) (receiver : Receiver) (turn : Turn) (base : Nat)
    (next : Receiver) : Prop :=
  next.Idle base ∧ receiver.Clean library turn ∨
    next.returned ≠ none ∧ (next.Tidy base ↔ receiver.Clean library turn)

theorem Idle.take (idle : receiver.Idle base) (nonempty : received.bytes ≠ [])
    (accepted : hasErr = true ∨ ∃ msg, spudParse library received.buf = .ok msg)
    (refused : ∀ size, 2 ^ 30 ≤ size → env.calloc size = false) :
    ∃ next, receiver.take library hasErr env received = .ok next ∧
      receiver.Settles library (.datagram env received) base next := by
  obtain ⟨find, holds, kept⟩ := idle.tubes
  have bytes : received.buf.length ≠ 0 :=
    fun empty => buf_ne_nil nonempty (List.length_eq_zero_iff.mp empty)
  let timed := receiver.timed env received
  unfold Receiver.take
  rw [if_neg bytes]
  cases parsed : spudParse library received.buf with
  | error reason =>
    have told : hasErr = true := by
      rcases accepted with told | ⟨msg, other⟩
      · exact told
      · cases parsed.symm.trans other
    obtain ⟨msg, rejected, none⟩ := @parse_error library timed _ reason parsed idle.empty
    refine ⟨{ timed with msg := ⟨.none, .none⟩ }, ?_, .inl ⟨?_, ?_⟩⟩
    · rw [rejected]
      simp only [if_pos told, spudUnparse, none]
      rfl
    · exact ⟨⟨find, holds.at env received, kept⟩, idle.reached, idle.shed, rfl⟩
    · intro other again
      cases parsed.symm.trans again
  | ok msg =>
    obtain ⟨verdict, after, later, handled, holdsAfter, grown, fails, strands⟩ :=
      @handleMessage_retains (receiver.mgr.at env received) env find base received msg
        (holds.at env received) kept idle.reached refused
    have clean : receiver.Clean library (.datagram env received) ↔
        (msg.cbor ≠ none → ¬ receiver.mgr.Breaks env msg) ∧ ¬ receiver.mgr.Strands env msg := by
      constructor
      · exact fun each => each msg parsed
      · intro both other again
        cases parsed.symm.trans again
        exact both
    have shed : timed.Shed := idle.shed
    have gone : receiver.mgr.Strands env msg → receiver.mgr.Breaks env msg := by
      rintro ⟨missing, responds, _, denied⟩
      unfold TubeManager.Breaks
      rw [missing]
      exact ⟨responds, fun all => denied all.2.1⟩
    rw [parse_ok parsed]
    simp only [message_holding, holding_mgr, Exec.ok_bind]
    rw [show (receiver.timed env received).mgr = receiver.mgr.at env received from rfl, handled]
    simp only [Exec.ok_bind]
    cases verdict with
    | next =>
      have goes : ¬ receiver.mgr.Breaks env msg := fun breaks => nomatch fails.mpr breaks
      have kept : ¬ receiver.mgr.Strands env msg := fun stranded => goes (gone stranded)
      obtain ⟨next, unparsed, shedNext, same, none, _⟩ := shed.unparse_holding msg after
      refine ⟨next, unparsed, .inl ⟨⟨⟨later, ?_, ?_⟩, ?_, shedNext, none⟩, ?_⟩⟩
      · rw [same]
        exact holdsAfter
      · rw [same]
        exact strands.mpr kept
      · rw [same]
        exact idle.reached.trans grown
      · exact clean.mpr ⟨fun _ => goes, kept⟩
    | failed =>
      have breaks : receiver.mgr.Breaks env msg := fails.mp rfl
      refine ⟨_, rfl, .inr ⟨nofun, ?_⟩⟩
      rw [clean, tidy_iff (show TubeManager.Holds _ later from holdsAfter)]
      refine and_congr ?_ strands
      constructor
      · exact fun left some => absurd left (not_shed_holding some)
      · intro bare
        refine shed_holding shed ?_
        by_contra some
        exact bare some breaks

theorem mgr_spudUnparse {next : Receiver} (unparsed : receiver.spudUnparse = .ok next) :
    next.mgr = receiver.mgr := by
  unfold spudUnparse at unparsed
  split at unparsed
  next =>
    cases unparsed
    rfl
  next =>
    obtain ⟨trees, _, same⟩ := Exec.bind_eq_ok.mp unparsed
    cases same
    rfl

/-- The manager fares as it does in the body of the loop without the trees. -/
theorem take_loopBody (empty : receiver.msg.cbor = none) {next : Receiver}
    (took : receiver.take library hasErr env received = .ok next) :
    ∃ verdict, (tubeManagerLoopBody env library hasErr received).straight receiver.mgr =
      .ok (verdict, next.mgr) := by
  unfold Receiver.take at took
  split at took
  next => cases took
  next bytes =>
    have some : received.buf ≠ [] := fun none => bytes (List.length_eq_zero_iff.mpr none)
    cases parsed : spudParse library received.buf with
    | error reason =>
      obtain ⟨msg, rejected, _⟩ :=
        @parse_error library (receiver.timed env received) _ reason parsed empty
      rw [rejected] at took
      rw [tubeManagerLoopBody_rejected some parsed]
      cases hasErr with
      | false => cases took
      | true =>
        rw [mgr_spudUnparse took]
        exact ⟨.next, rfl⟩
    | ok msg =>
      rw [parse_ok parsed] at took
      simp only [message_holding, holding_mgr, Exec.ok_bind] at took
      obtain ⟨⟨verdict, after⟩, handled, ended⟩ := Exec.bind_eq_ok.mp took
      refine ⟨verdict, ?_⟩
      rw [tubeManagerLoopBody_parsed some parsed]
      refine handled.trans ?_
      cases verdict with
      | next => rw [mgr_spudUnparse ended]
      | failed =>
        cases ended
        rfl

/-- Each turn that the loop may take is taken, and settles. -/
theorem Idle.turn (idle : receiver.Idle base) {turn : Turn}
    (enabled : (system library hasErr).Enabled receiver turn) :
    ∃ next, (system library hasErr).step receiver turn = .ok next ∧
      receiver.Settles library turn base next := by
  cases turn with
  | finished => exact ⟨_, rfl, .inr ⟨nofun, iff_of_true ⟨idle.tidy.trees, idle.tidy.tubes⟩ trivial⟩⟩
  | failed => exact ⟨_, rfl, .inr ⟨nofun, iff_of_true ⟨idle.tidy.trees, idle.tidy.tubes⟩ trivial⟩⟩
  | interrupted => exact ⟨receiver, rfl, .inl ⟨idle, trivial⟩⟩
  | datagram env received =>
    obtain ⟨_, _, nonempty, accepted, refused⟩ := enabled
    exact idle.take nonempty accepted refused
  | stopped =>
    obtain ⟨find, holds, kept⟩ := idle.tubes
    refine ⟨{ receiver with mgr := { receiver.mgr with keepGoing := false }, msg := ⟨none, none⟩ },
      ?_, .inl ⟨⟨⟨find, ⟨holds.registers, holds.live⟩, kept⟩, idle.reached, idle.shed, rfl⟩,
        trivial⟩⟩
    simp only [system, Receiver.turn, spudUnparse, idle.empty]
    rfl

variable {last : Receiver} {turns : List Turn}

theorem Idle.run (idle : receiver.Idle base)
    (run : (system library hasErr).Run receiver turns last) :
    (last.Tidy base ↔ ((system library hasErr).restrict (Clean library)).Run receiver turns last) ∧
      (last.returned = none → last.Idle base) := by
  induction run with
  | nil receiver => exact ⟨iff_of_true idle.tidy (.nil receiver), fun _ => idle⟩
  | @cons receiver middle last turn turns enabled returned run inductionHypothesis =>
    obtain ⟨next, taken, settles⟩ := idle.turn enabled
    obtain rfl : next = middle := Except.ok.inj (taken.symm.trans returned)
    rcases settles with ⟨idleNext, clean⟩ | ⟨ended, left⟩
    · obtain ⟨tidy, going⟩ := inductionHypothesis idleNext
      refine ⟨?_, going⟩
      rw [tidy]
      constructor
      · exact fun onward => .cons ⟨enabled, clean⟩ returned onward
      · rintro (_ | ⟨_, again, onward⟩)
        cases returned.symm.trans again
        exact onward
    · -- the loop has returned, so that this was the last turn
      cases run with
      | nil =>
        refine ⟨?_, fun going => absurd going ended⟩
        rw [left]
        constructor
        · exact fun clean => .cons ⟨enabled, clean⟩ returned (.nil _)
        · rintro (_ | ⟨enabled, _, _⟩)
          exact enabled.2
      | @cons _ _ _ turn _ further =>
        refine absurd ?_ ended
        cases turn <;> exact further.1

/-- In every run of the loop, each tree is freed and each tube that the loop made is in the
table or destroyed exactly if every turn was clean; and no turn frees anything twice. -/
theorem run_tidy_iff {start : Receiver} (starts : start.Starts)
    (run : (system library hasErr).Run start turns last) :
    (last.Tidy start.mgr.tubes.fresh ↔
        ((system library hasErr).restrict (Clean library)).Run start turns last) ∧
      (system library hasErr).Safe last := by
  obtain ⟨⟨find, holds⟩, trees, msg, _⟩ := starts
  have idle : start.Idle start.mgr.tubes.fresh := by
    refine ⟨⟨find, holds, ?_⟩, Nat.le_refl _, ?_, by rw [msg]⟩
    · exact fun t new => .inr (start.mgr.tubes.unallocated t new)
    · intro tree
      rw [trees]
      rfl
  obtain ⟨tidy, going⟩ := idle.run run
  refine ⟨tidy, ?_⟩
  intro turn enabled
  have returned : last.returned = none := by cases turn <;> exact enabled.1
  obtain ⟨next, taken, _⟩ := (going returned).turn enabled
  exact ⟨next, taken⟩

end Turns

def listening : Receiver := ⟨newResponder, Memory.empty, ⟨none, none⟩, none⟩

theorem listening_starts : listening.Starts := ⟨⟨_, newResponder_holds⟩, rfl, rfl, rfl⟩

def laden : Reception :=
  { bareHeader ⟨fun _ => 7⟩ .spudOpen with
    bytes := (sentHeader ⟨fun _ => 7⟩ .spudOpen false false).bytes ++ [0] }

theorem laden_enabled {env : Environment}
    (refused : ∀ size, 2 ^ 30 ≤ size → env.calloc size = false) :
    (system minimalCbor true).Enabled listening (.datagram env laden) :=
  ⟨rfl, rfl, by decide, .inl rfl, refused⟩

theorem run_tidy_iff_accepted : ∃ last : Receiver, last.mgr.tubes.fresh = 1 ∧
    last.trees.fresh = 1 ∧ last.Tidy 0 := by
  obtain ⟨last, returned, seen⟩ := Exec.exists_of_map
    (fun last : Receiver => (last.mgr.tubes.fresh, last.trees.fresh))
    (show ((system minimalCbor true).step listening (.datagram obliging laden)).toOption.map _ =
      some (1, 1) by decide +kernel)
  obtain ⟨tubes, trees⟩ := Prod.mk.inj seen
  have clean : Clean minimalCbor listening (.datagram obliging laden) := by
    intro msg _
    have all : newResponder.Admits obliging := ⟨rfl, by decide⟩
    refine ⟨fun _ breaks => ?_, fun strands => strands.2.2.2 all⟩
    unfold TubeManager.Breaks at breaks
    rw [show listening.mgr.lookup msg.header.tubeId = .ok none from
      newResponder_holds.lookup _] at breaks
    exact breaks.2 ⟨rfl, all, rfl⟩
  have enabled := laden_enabled obliging_refused
  obtain ⟨tidy, _⟩ := run_tidy_iff listening_starts (.cons enabled returned (.nil last))
  exact ⟨last, tubes, trees, tidy.mpr (.cons ⟨enabled, clean⟩ returned (.nil last))⟩

def withoutPktinfo : Environment where
  granted allocation := match allocation with
    | .pktinfo => false
    | _ => true
  calloc := obliging.calloc
  randomId := obliging.randomId
  sendmsg _ := true
  clock := obliging.clock

/-- Without memory for the copy, an `OPEN` leaves its tree and its tube behind. -/
theorem laden_leaks : ∃ last : Receiver, listening.Starts ∧
    (system minimalCbor true).Run listening [.datagram withoutPktinfo laden] last ∧
    last.returned = some false ∧ ¬ last.trees.Freed 0 ∧ ¬ last.mgr.tubes.Freed 0 ∧
    last.mgr.tubeManagerSize = 0 ∧ ¬ last.Tidy listening.mgr.tubes.fresh := by
  obtain ⟨last, returned, seen⟩ := Exec.exists_of_map
    (fun last : Receiver => (last.returned, last.trees.fresh, decide (last.trees.Freed 0),
      decide (last.mgr.tubes.Freed 0), last.mgr.tubeManagerSize))
    (show ((system minimalCbor true).step listening (.datagram withoutPktinfo laden)).toOption.map
      _ = some (some false, 1, false, false, 0) by decide +kernel)
  simp only [Prod.mk.injEq, decide_eq_false_iff_not] at seen
  obtain ⟨ended, fresh, tree, tube, size⟩ := seen
  refine ⟨last, listening_starts, .cons (laden_enabled obliging_refused) returned (.nil last),
    ended, tree, tube, size, ?_⟩
  intro tidy
  exact tree (tidy.trees 0 (by rw [fresh]; exact Nat.one_pos))

end Receiver

end SpudLib
