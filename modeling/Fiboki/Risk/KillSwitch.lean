import Fiboki.Core.Enums
import Fiboki.Lib.Wire

/-!
The operator's kill switch: its journal, the replay that gives its state, and the
file operations a `KillSwitch` object makes, one at a time.

Any number of objects share one journal.  Reading the fingerprint, replaying the
journal and appending to it are separate steps, so another object may act between
any two of them.
-/

namespace Fiboki

inductive KillSwitchMode where
  | pause
  | flatten
  deriving DecidableEq

/-- What an order is trying to do, from the kill switch's point of view. -/
inductive RequestKind where
  | open_
  | increase
  | reduce
  | close
  | protectiveAmend
  deriving DecidableEq

def RequestKind.addsRisk : RequestKind → Bool
  | open_ | increase => true
  | _ => false

inductive KillSwitchAction where
  | activate
  | deactivate
  deriving DecidableEq

structure KillSwitchEvent where
  action : KillSwitchAction
  mode : Option KillSwitchMode
  operator : String
  reason : String
  at_ : Timestamp
  positionsOpen : ℕ
  extra : List (String × Wire.Value)

namespace KillSwitchEvent

def flattens (e : KillSwitchEvent) : Bool := e.action == .activate && e.mode == some .flatten

def deactivates (e : KillSwitchEvent) : Bool := e.action == .deactivate

end KillSwitchEvent

structure KillSwitchState where
  active : Bool
  mode : Option KillSwitchMode
  operator : Option String
  reason : Option String
  since : Option Timestamp

namespace KillSwitchState

def off : KillSwitchState := ⟨false, none, none, none, none⟩

def after (_ : KillSwitchState) (e : KillSwitchEvent) : KillSwitchState :=
  match e.action with
  | .activate => ⟨true, e.mode, some e.operator, some e.reason, some e.at_⟩
  | .deactivate => off

/-- `_replay` over the rows of the journal. -/
def replay (rows : List KillSwitchEvent) : KillSwitchState := rows.foldl after off

def flattening (s : KillSwitchState) : Bool := s.active && s.mode == some .flatten

/-- The answer of `allows`, once the state is refreshed. -/
def allows (s : KillSwitchState) (kind : RequestKind) : Bool × String :=
  if s.active = false then (true, "kill_switch_inactive")
  else
    match s.mode with
    | some .pause =>
      if kind.addsRisk then (false, "kill_switch_pause_blocks_new_risk")
      else (true, "kill_switch_pause_permits_risk_reduction")
    | some .flatten =>
      if kind = .close ∨ kind = .reduce then (true, "kill_switch_flatten_permits_closing")
      else (false, "kill_switch_flatten_blocks_non_closing")
    | none => (false, "kill_switch_unknown_mode")

variable (rows : List KillSwitchEvent)

theorem replay_append (e : KillSwitchEvent) : replay (rows ++ [e]) = (replay rows).after e := by
  simp [replay]

theorem flattening_after (s : KillSwitchState) (e : KillSwitchEvent) :
    (s.after e).flattening = e.flattens := by
  unfold after KillSwitchEvent.flattens
  cases e.action <;> simp [flattening, off]

theorem flattening_replay :
    (replay rows).flattening = (rows.getLast?.map KillSwitchEvent.flattens).getD false := by
  cases rows using List.reverseRecOn with
  | nil => rfl
  | append_singleton rows e => rw [replay_append, flattening_after]; simp

end KillSwitchState

/-- An append-only store of rows whose fingerprint moves with its size. -/
structure KillSwitchJournal (J F : Type) where
  durable : Bool
  empty : J
  events : J → List KillSwitchEvent
  append : J → Timestamp → KillSwitchEvent → J
  fingerprint : J → F
  size : J → ℕ
  events_empty : events empty = []
  events_append : ∀ j now e, events (append j now e) = events j ++ [e]
  size_append : ∀ j now e, size j < size (append j now e)
  size_of_fingerprint : ∀ j j', fingerprint j = fingerprint j' → size j = size j'

/-- The journal file: what it holds and what `stat` says of it. -/
structure KillSwitchFile where
  rows : List KillSwitchEvent
  ino : ℕ
  size : ℕ
  mtime : Timestamp

/-- `FileKillSwitchJournal`, for rows of any length: the fingerprint is inode,
size and modification time. -/
def fileJournal (lineLength : KillSwitchEvent → ℕ) :
    KillSwitchJournal KillSwitchFile (ℕ × ℕ × Timestamp) where
  durable := true
  empty := ⟨[], 0, 0, 0⟩
  events file := file.rows
  append file now e :=
    { file with rows := file.rows ++ [e], size := file.size + (lineLength e + 1), mtime := now }
  fingerprint file := (file.ino, file.size, file.mtime)
  size := KillSwitchFile.size
  events_empty := rfl
  events_append _ _ _ := rfl
  size_append _ _ _ := by simp
  size_of_fingerprint _ _ h := congrArg (fun f : ℕ × ℕ × Timestamp => f.2.1) h

namespace KillSwitchJournal

variable {J F : Type} (journal : KillSwitchJournal J F)

/-- `j` became `j'` by appends alone. -/
def Grown (j j' : J) : Prop :=
  Relation.ReflTransGen (fun a b => ∃ now e, b = journal.append a now e) j j'

variable {journal} {j j' : J}

theorem Grown.append (h : journal.Grown j j') (now : Timestamp) (e : KillSwitchEvent) :
    journal.Grown j (journal.append j' now e) :=
  h.tail ⟨now, e, rfl⟩

theorem Grown.events_grown (h : journal.Grown j j') : journal.events j <+: journal.events j' := by
  induction h with
  | refl => exact List.prefix_rfl
  | tail _ hstep ih =>
    obtain ⟨now, e, rfl⟩ := hstep
    rw [journal.events_append]
    exact ih.trans (List.prefix_append _ _)

theorem Grown.eq_or_size_lt (h : journal.Grown j j') : j = j' ∨ journal.size j <
    journal.size j' := by
  induction h with
  | refl => exact .inl rfl
  | tail _ hstep ih =>
    obtain ⟨now, e, rfl⟩ := hstep
    right
    rcases ih with rfl | hlt
    · exact journal.size_append _ _ _
    · exact hlt.trans (journal.size_append _ _ _)

theorem Grown.eq_of_fingerprint (h : journal.Grown j j')
    (hf : journal.fingerprint j = journal.fingerprint j') : j = j' := by
  rcases h.eq_or_size_lt with heq | hlt
  · exact heq
  · exact absurd (journal.size_of_fingerprint j j' hf) (Nat.ne_of_lt hlt)

end KillSwitchJournal

inductive SwitchCall where
  | activate (mode : KillSwitchMode) (operator reason : String) (at_ : Option Timestamp)
      (positionsOpen : ℕ) (extra : List (String × Wire.Value))
  | deactivate (operator reason : String) (at_ : Option Timestamp)
      (extra : List (String × Wire.Value))
  | allows (kind : RequestKind)

inductive SwitchDecision where
  | answer (allowed : Bool × String)
  | refuse (message : String)
  | journalise (event : KillSwitchEvent)

namespace SwitchCall

def precheck : SwitchCall → Option String
  | activate _ operator reason _ _ _ =>
    if operator = "" ∨ reason = "" then
      some "Kill switch activation requires an operator and a reason"
    else none
  | _ => none

def decide (state : KillSwitchState) (now : Timestamp) : SwitchCall → SwitchDecision
  | allows kind => .answer (state.allows kind)
  | activate mode operator reason at_ positionsOpen extra =>
    if state.flattening ∧ mode = .pause then
      .refuse ("Refusing to downgrade FLATTEN to PAUSE. Deactivate explicitly " ++
        "first; a single call must never quietly re-arm the book.")
    else
      .journalise ⟨.activate, some mode, operator, reason, at_.getD now, positionsOpen, extra⟩
  | deactivate operator reason at_ extra =>
    if state.active = false then .refuse "Kill switch is not active; nothing to deactivate"
    else if operator = "" ∨ reason = "" then
      .refuse "Kill switch deactivation requires an operator and a reason"
    else .journalise ⟨.deactivate, state.mode, operator, reason, at_.getD now, 0, extra⟩

end SwitchCall

/-- Where an object is in its current call.  `started` is the journal as the call
began; `looked` is the journal a fingerprint was read from. -/
inductive SwitchPhase (J : Type) where
  | absent
  | opening (looked : J)
  | idle
  | called (call : SwitchCall) (started : J)
  | stale (call : SwitchCall) (started looked : J)
  | refreshed (call : SwitchCall) (started : J)
  | appending (event : KillSwitchEvent)
  | appended
  | replayed

/-- A `KillSwitch`.  Beside the cached fingerprint and state it carries what they
were taken from, which no step reads. -/
structure KillSwitch (J F : Type) where
  fingerprint : F
  state : KillSwitchState
  looked : J
  view : List KillSwitchEvent
  phase : SwitchPhase J

def KillSwitch.withPhase {J F : Type} (k : KillSwitch J F) (phase : SwitchPhase J) :
    KillSwitch J F :=
  { k with phase := phase }

/-- The journal, every object on it, and each appended row with the view its
object appended it on. -/
structure SwitchSystem (J F : Type) where
  journal : J
  objects : ℕ → KillSwitch J F
  appended : List (KillSwitchEvent × List KillSwitchEvent)

inductive SwitchMove where
  | call (call : SwitchCall)
  | proceed (now : Timestamp)

namespace SwitchSystem

variable {J F : Type} [DecidableEq F] (journal : KillSwitchJournal J F)

def setObject (s : SwitchSystem J F) (o : ℕ) (k : KillSwitch J F) : SwitchSystem J F :=
  { s with objects := Function.update s.objects o k }

def setPhase (s : SwitchSystem J F) (o : ℕ) (phase : SwitchPhase J) : SwitchSystem J F :=
  s.setObject o ((s.objects o).withPhase phase)

/-- The next file operation, or decision, of object `o`. -/
def proceed (s : SwitchSystem J F) (o : ℕ) (now : Timestamp) : SwitchSystem J F :=
  let k := s.objects o
  let rows := journal.events s.journal
  match k.phase with
  | .absent => s.setPhase o (.opening s.journal)
  | .opening looked =>
    s.setObject o ⟨journal.fingerprint looked, .replay rows, looked, rows, .idle⟩
  | .idle => s
  | .called call started =>
    if journal.fingerprint s.journal = k.fingerprint then s.setPhase o (.refreshed call started)
    else s.setPhase o (.stale call started s.journal)
  | .stale call started looked =>
    s.setObject o
      ⟨journal.fingerprint looked, .replay rows, looked, rows, .refreshed call started⟩
  | .refreshed call _ =>
    match call.decide k.state now with
    | .answer _ | .refuse _ => s.setPhase o .idle
    | .journalise event => s.setPhase o (.appending event)
  | .appending event =>
    { s with
      journal := journal.append s.journal now event
      appended := s.appended ++ [(event, k.view)] }.setPhase o .appended
  | .appended => s.setObject o { k with state := .replay rows, view := rows, phase := .replayed }
  | .replayed =>
    s.setObject o
      { k with fingerprint := journal.fingerprint s.journal, looked := s.journal, phase := .idle }

def step (s : SwitchSystem J F) : ℕ × SwitchMove → SwitchSystem J F
  | (o, .proceed now) => proceed journal s o now
  | (o, .call call) =>
    match (s.objects o).phase, call.precheck with
    | .idle, none => s.setPhase o (.called call s.journal)
    | _, _ => s

section Equations

variable {journal} {s : SwitchSystem J F} {o : ℕ} {now : Timestamp}

theorem proceed_absent (h : (s.objects o).phase = .absent) :
    s.proceed journal o now = s.setPhase o (.opening s.journal) := by
  simp only [proceed, h]

theorem proceed_opening {looked : J} (h : (s.objects o).phase = .opening looked) :
    s.proceed journal o now = s.setObject o ⟨journal.fingerprint looked,
      .replay (journal.events s.journal), looked, journal.events s.journal, .idle⟩ := by
  simp only [proceed, h]

theorem proceed_idle (h : (s.objects o).phase = .idle) : s.proceed journal o now = s := by
  simp only [proceed, h]

variable {call : SwitchCall}

variable {started : J}

theorem proceed_called (h : (s.objects o).phase = .called call started) :
    s.proceed journal o now =
      if journal.fingerprint s.journal = (s.objects o).fingerprint then
        s.setPhase o (.refreshed call started)
      else s.setPhase o (.stale call started s.journal) := by
  simp only [proceed, h]

theorem proceed_stale {started looked : J} (h : (s.objects o).phase = .stale call started looked) :
    s.proceed journal o now = s.setObject o ⟨journal.fingerprint looked,
      .replay (journal.events s.journal), looked, journal.events s.journal,
      .refreshed call started⟩ := by
  simp only [proceed, h]

variable (journal now) in
theorem proceed_refreshed (h : (s.objects o).phase = .refreshed call started) :
    s.proceed journal o now = s.setPhase o .idle ∨
      ∃ event, call.decide (s.objects o).state now = .journalise event ∧
        s.proceed journal o now = s.setPhase o (.appending event) := by
  simp only [proceed, h]
  cases hd : call.decide (s.objects o).state now with
  | answer a | refuse message => exact .inl rfl
  | journalise event => exact .inr ⟨event, rfl, rfl⟩

theorem proceed_appending {event : KillSwitchEvent} (h : (s.objects o).phase = .appending event) :
    s.proceed journal o now =
      { s with
        journal := journal.append s.journal now event
        appended := s.appended ++ [(event, (s.objects o).view)] }.setPhase o .appended := by
  simp only [proceed, h]

theorem proceed_appended (h : (s.objects o).phase = .appended) :
    s.proceed journal o now = s.setObject o { s.objects o with
      state := .replay (journal.events s.journal)
      view := journal.events s.journal
      phase := .replayed } := by
  simp only [proceed, h]

theorem proceed_replayed (h : (s.objects o).phase = .replayed) :
    s.proceed journal o now = s.setObject o { s.objects o with
      fingerprint := journal.fingerprint s.journal
      looked := s.journal
      phase := .idle } := by
  simp only [proceed, h]

end Equations

/-- The answer a step gives to a call of `allows`, with the journal as the call began. -/
def answered (s : SwitchSystem J F) : ℕ × SwitchMove → Option (RequestKind × J × (Bool × String))
  | (o, .proceed now) =>
    match (s.objects o).phase with
    | .refreshed (.allows kind) started =>
      match SwitchCall.decide (s.objects o).state now (.allows kind) with
      | .answer a => some (kind, started, a)
      | _ => none
    | _ => none
  | _ => none

def fresh (j : J) : SwitchSystem J F where
  journal := j
  objects _ := ⟨journal.fingerprint j, .off, j, [], .absent⟩
  appended := []

end SwitchSystem

end Fiboki
