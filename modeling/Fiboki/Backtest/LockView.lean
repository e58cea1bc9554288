import Fiboki.Backtest.Engine
import Fiboki.Backtest.Ledger
import Fiboki.Backtest.LockTable
import Fiboki.Lib.StableSort

/-!
The lock state that a gateway rebuilds from a ledger, against the lock book that the
engine keeps as it goes.
-/

namespace Fiboki

namespace LockBook

/-- `rebuild`: closes in order of exit time, ties in ledger order. -/
def rebuild (env : Sessions) (registrations : Dict String LockRegistration)
    (default : Option LockRegistration) (closes : List ClosedTrade) : Except LockError LockBook :=
  (fresh registrations default).tell env (StableSort.sortBy ClosedTrade.exitTime closes)

end LockBook

inductive LockViewError where
  | policyUnknown (strategyId : String)
  | notATimeframe (value : String)
  | wrongTimeframe (strategyId timeframe registered : String)
  | unreadable (message : String)
  | lock (error : LockError)

structure LedgerLockView where
  registrations : Dict String LockRegistration
  closes : Except String (List ClosedTrade)

namespace LedgerLockView

/-- What `lock_for` refuses before it reads the ledger. -/
def refusal (view : LedgerLockView) (strategyId : String) (declared : Bool)
    (timeframe : Option String) : Option LockViewError :=
  if declared = false then none
  else
    match view.registrations.get strategyId, timeframe with
    | none, _ => some (.policyUnknown strategyId)
    | some _, none => none
    | some reg, some value =>
      match Timeframe.ofValue value with
      | none => some (.notATimeframe value)
      | some tf =>
        if tf = reg.timeframe then none
        else some (.wrongTimeframe strategyId value reg.timeframe.value)

def lockFor (env : Sessions) (view : LedgerLockView) (instrument strategyId : String)
    (barTime : Timestamp) (declared : Bool) (timeframe : Option String) :
    Except LockViewError (Option LockReason) :=
  match view.refusal strategyId declared timeframe with
  | some refused => .error refused
  | none =>
    match view.closes with
    | .error message => .error (.unreadable message)
    | .ok records =>
      match LockBook.rebuild env view.registrations none
          (records.filter fun r => r.exitTime ≤ barTime) with
      | .error e => .error (.lock e)
      | .ok book =>
        match book.isLocked env instrument strategyId barTime with
        | .error e => .error (.lock e)
        | .ok lock => .ok lock

end LedgerLockView

namespace LockBook

variable {env : Sessions} {S : String} {reg : LockRegistration} {b b' : LockBook}
  {closed : ClosedTrade}

def byName (S : String) (reg : LockRegistration) (b : LockBook) : LockBook :=
  { b with registrations := Dict.empty.set S reg, default := none }

/-- A book with a default alone, told of no strategy but `S`. -/
structure Single (S : String) (reg : LockRegistration) (b : LockBook) : Prop where
  registrations : b.registrations = .empty
  default : b.default = some reg
  seen : ∀ s ∈ b.seen, s = S

theorem Single.fresh (S : String) (reg : LockRegistration) :
    Single S reg (.fresh .empty (some reg)) :=
  ⟨rfl, rfl, fun _ h => absurd h List.not_mem_nil⟩

theorem Single.congr (h : Single S reg b) (hreg : b'.registrations = b.registrations)
    (hdefault : b'.default = b.default) (hseen : b'.seen = b.seen) : Single S reg b' := by
  refine ⟨?_, ?_, ?_⟩
  · rw [hreg]
    exact h.registrations
  · rw [hdefault]
    exact h.default
  · rw [hseen]
    exact h.seen

theorem Single.noteClose (h : Single S reg b) (hclosed : closed.strategyId = S) :
    Single S reg (b.noteClose closed) where
  registrations := h.registrations
  default := h.default
  seen s hs := by
    unfold LockBook.noteClose at hs
    dsimp only at hs
    split_ifs at hs
    · exact h.seen s hs
    · rcases List.mem_append.1 hs with hs | hs
      · exact h.seen s hs
      · exact (List.mem_singleton.1 hs).trans hclosed

theorem mem_seen_noteClose (b : LockBook) (closed : ClosedTrade) :
    closed.strategyId ∈ (b.noteClose closed).seen := by
  unfold noteClose
  dsimp only
  split_ifs with hmem
  · exact hmem
  · exact List.mem_append_right _ List.mem_cons_self

theorem coolDown_fields (env : Sessions) (b : LockBook) (closed : ClosedTrade) :
    (b.coolDown env closed).2.registrations = b.registrations ∧
      (b.coolDown env closed).2.default = b.default ∧
      (b.coolDown env closed).2.seen = b.seen := by
  unfold coolDown
  split
  · exact ⟨rfl, rfl, rfl⟩
  · split_ifs
    · exact ⟨rfl, rfl, rfl⟩
    · split
      · exact ⟨rfl, rfl, rfl⟩
      · split
        · exact ⟨rfl, rfl, rfl⟩
        · exact ⟨rfl, rfl, rfl⟩

variable (env) in
theorem coolDown_byName (h : Single S reg b) (hclosed : closed.strategyId = S) :
    (b.byName S reg).coolDown env closed =
      ((b.coolDown env closed).1, (b.coolDown env closed).2.byName S reg) := by
  have hown : b.registrationFor closed.strategyId = some reg := by
    unfold registrationFor
    rw [h.registrations, Dict.get_empty]
    exact h.default
  have hown' : (b.byName S reg).registrationFor closed.strategyId = some reg := by
    unfold registrationFor byName
    rw [hclosed, Dict.get_set_self]
  unfold coolDown
  rw [hown, hown']
  dsimp only
  split_ifs
  · rfl
  · cases SessionBarClock.forInstrument env closed.instrument reg.timeframe with
    | error e => rfl
    | ok clock =>
      dsimp only
      cases clock.index env closed.exitTime with
      | error e | ok idx => rfl

variable (reg) in
theorem foldl_default (seen : List String) (hseen : ∀ s ∈ seen, s = S)
    (d : Dict String LockRegistration)
    (hd : d = Dict.empty.set S reg ∨ d = .empty ∧ seen ≠ []) :
    seen.foldl (fun d sid => if (d.get sid).isSome then d else d.set sid reg) d =
      Dict.empty.set S reg := by
  induction seen generalizing d with
  | nil =>
    rcases hd with rfl | ⟨-, hne⟩
    · rfl
    · exact absurd rfl hne
  | cons s seen ih =>
    obtain rfl := hseen s List.mem_cons_self
    have hrest := fun x hx => hseen x (List.mem_cons_of_mem _ hx)
    rw [List.foldl_cons]
    apply ih hrest
    left
    rcases hd with rfl | ⟨rfl, -⟩
    · rw [Dict.get_set_self]
      exact if_pos rfl
    · rw [Dict.get_empty]
      exact if_neg (by decide)

theorem streakDeclarers_byName (h : Single S reg b) (hmem : S ∈ b.seen) :
    (b.byName S reg).streakDeclarers closed = b.streakDeclarers closed := by
  have hfold := foldl_default reg b.seen h.seen .empty
    (Or.inr ⟨rfl, List.ne_nil_of_mem hmem⟩)
  unfold streakDeclarers
  rw [h.default, h.registrations]
  dsimp only
  rw [hfold]
  rfl

theorem evaluateStreak_byName (b : LockBook) (declarer : String) (own : LockRegistration) :
    (b.byName S reg).evaluateStreak env declarer own closed =
      ((b.evaluateStreak env declarer own closed).1,
        (b.evaluateStreak env declarer own closed).2.byName S reg) := by
  unfold evaluateStreak
  cases own.policy.stopStreak with
  | none => rfl
  | some rule =>
    dsimp only
    cases SessionBarClock.forInstrument env closed.instrument own.timeframe with
    | error e => rfl
    | ok clock =>
      dsimp only
      cases clock.index env closed.exitTime with
      | error e => rfl
      | ok nowIdx =>
        have hcount : (b.byName S reg).streakCount env clock rule declarer closed.instrument
            nowIdx = b.streakCount env clock rule declarer closed.instrument nowIdx := rfl
        dsimp only
        rw [hcount]
        cases b.streakCount env clock rule declarer closed.instrument nowIdx with
        | error e => rfl
        | ok count =>
          dsimp only
          split_ifs
          · rfl
          · rfl

theorem evaluateStreak_fields (env : Sessions) (b : LockBook) (declarer : String)
    (own : LockRegistration) (closed : ClosedTrade) :
    (b.evaluateStreak env declarer own closed).2.registrations = b.registrations ∧
      (b.evaluateStreak env declarer own closed).2.default = b.default ∧
      (b.evaluateStreak env declarer own closed).2.seen = b.seen := by
  obtain h | ⟨rule, clock, nowIdx, n, -, -, -, -, -, hstate⟩ :=
    evaluateStreak_cases env b declarer own closed
  · rw [h]
    exact ⟨rfl, rfl, rfl⟩
  · rw [hstate]
    exact ⟨rfl, rfl, rfl⟩

variable (ds : List (String × LockRegistration)) (armed : List LockReason)

theorem runStreaks_byName (b : LockBook) : runStreaks env closed ds armed (b.byName S reg) =
      ((runStreaks env closed ds armed b).1,
        (runStreaks env closed ds armed b).2.byName S reg) := by
  induction ds generalizing armed b with
  | nil => rfl
  | cons d ds ih =>
    simp only [runStreaks, evaluateStreak_byName]
    generalize b.evaluateStreak env d.1 d.2 closed = out
    obtain ⟨outcome, b'⟩ := out
    cases outcome with
    | error e => rfl
    | ok lock => exact ih (armed ++ lock.toList) b'

variable (env closed) in
theorem runStreaks_fields (b : LockBook) :
    (runStreaks env closed ds armed b).2.registrations = b.registrations ∧
      (runStreaks env closed ds armed b).2.default = b.default ∧
      (runStreaks env closed ds armed b).2.seen = b.seen := by
  induction ds generalizing armed b with
  | nil => exact ⟨rfl, rfl, rfl⟩
  | cons d ds ih =>
    have hstep := evaluateStreak_fields env b d.1 d.2 closed
    simp only [runStreaks]
    generalize b.evaluateStreak env d.1 d.2 closed = out at hstep
    obtain ⟨outcome, b'⟩ := out
    obtain ⟨hreg, hdefault, hseen⟩ := hstep
    cases outcome with
    | error e => exact ⟨hreg, hdefault, hseen⟩
    | ok lock =>
      obtain ⟨hreg', hdefault', hseen'⟩ := ih (armed ++ lock.toList) b'
      exact ⟨hreg'.trans hreg, hdefault'.trans hdefault, hseen'.trans hseen⟩

variable (env) in
theorem onClose_byName (h : Single S reg b) (hclosed : closed.strategyId = S) :
    (b.byName S reg).onClose env closed =
        ((b.onClose env closed).1, (b.onClose env closed).2.byName S reg) ∧
      Single S reg (b.onClose env closed).2 := by
  have hnoted := h.noteClose hclosed
  have hcool := coolDown_byName env hnoted hclosed
  have hfields := coolDown_fields env (b.noteClose closed) closed
  have hmem := mem_seen_noteClose b closed
  have hcool' : ((b.byName S reg).noteClose closed).coolDown env closed = _ := hcool
  unfold onClose
  rw [hcool']
  generalize (b.noteClose closed).coolDown env closed = out at hfields ⊢
  obtain ⟨outcome, c⟩ := out
  obtain ⟨hreg, hdefault, hseen⟩ := hfields
  have hsingle : Single S reg c := hnoted.congr hreg hdefault hseen
  cases outcome with
  | error e => exact ⟨rfl, hsingle⟩
  | ok armed =>
    dsimp only
    split_ifs
    · have hstop : Single S reg (c.noteStop closed) := hsingle.congr rfl rfl rfl
      have hdeclared : (c.noteStop closed).streakDeclarers closed =
          ((c.byName S reg).noteStop closed).streakDeclarers closed := by
        refine (streakDeclarers_byName hstop ?_).symm
        change S ∈ c.seen
        rw [hseen, ← hclosed]
        exact hmem
      refine ⟨?_, ?_⟩
      · rw [← hdeclared]
        exact runStreaks_byName _ armed (c.noteStop closed)
      · obtain ⟨hreg', hdefault', hseen'⟩ := runStreaks_fields env closed
          ((c.noteStop closed).streakDeclarers closed) armed (c.noteStop closed)
        exact hstop.congr hreg' hdefault' hseen'
    · exact ⟨rfl, hsingle⟩

theorem tell_byName (closes : List ClosedTrade) (h : Single S reg b)
    (hcloses : ∀ c ∈ closes, c.strategyId = S) (htell : b.tell env closes = .ok b') :
    (b.byName S reg).tell env closes = .ok (b'.byName S reg) := by
  induction closes generalizing b with
  | nil =>
    obtain rfl := Except.ok.inj htell
    rfl
  | cons c closes ih =>
    obtain ⟨hstep, hsingle⟩ := onClose_byName env h (hcloses c List.mem_cons_self)
    simp only [tell] at htell ⊢
    rw [hstep]
    generalize b.onClose env c = out at hsingle htell ⊢
    obtain ⟨outcome, b₁⟩ := out
    cases outcome with
    | error e => cases htell
    | ok armed => exact ih hsingle (fun d hd => hcloses d (List.mem_cons_of_mem _ hd)) htell

theorem tell_append (closes more : List ClosedTrade) (b : LockBook) : b.tell env (closes ++ more) =
      match b.tell env closes with
      | .error e => .error e
      | .ok b' => b'.tell env more := by
  induction closes generalizing b with
  | nil => rfl
  | cons c closes ih =>
    simp only [List.cons_append, tell]
    generalize b.onClose env c = out
    obtain ⟨outcome, b₁⟩ := out
    cases outcome with
    | error e => rfl
    | ok armed => exact ih b₁

end LockBook

namespace EngineSetup

variable {env : EngineSetup} {S : String} {reg : LockRegistration} {s s' : EngineRun}

/-- Every signal carries `S`; the identifier of a document is never empty. -/
structure SingleStrategy (env : EngineSetup) (S : String) : Prop where
  signals : ∀ ctx, ∀ signal ∈ env.strategy ctx, signal.strategyId = S
  named : S ≠ ""

theorem SingleStrategy.filed (h : env.SingleStrategy S) : env.book.strategyOf S = S :=
  if_neg h.named

/-- What the loop keeps: everything is filed under `S`, the ledger is in order of exit
time, and the lock book has been told of all of it. -/
structure Kept (env : EngineSetup) (S : String) (reg : LockRegistration)
    (s : EngineRun) : Prop where
  owned : s.book.Owned env.book S
  filed : ∀ row ∈ s.book.trades, row.strategyId = S
  sorted : s.book.trades.Pairwise fun r r' => r.exitTime ≤ r'.exitTime
  told : ∃ l, s.locks = some l ∧ l.registration = reg ∧
    (LockBook.fresh .empty (some reg)).tell env.sessions (s.book.trades.map ClosedTrade.of) =
      .ok l.book

theorem Kept.start (env : EngineSetup) (S : String) (reg : LockRegistration) :
    Kept env S reg (env.start (some reg)) where
  owned := .fresh env.book S env.initialBalance
  filed _ h := absurd h List.not_mem_nil
  sorted := List.Pairwise.nil
  told := ⟨_, rfl, rfl, rfl⟩

theorem Kept.congr (h : Kept env S reg s) (howned : s'.book.Owned env.book S)
    (htrades : s'.book.trades = s.book.trades) (hlocks : s'.locks = s.locks) :
    Kept env S reg s' := by
  refine ⟨howned, ?_, ?_, ?_⟩
  · rw [htrades]
    exact h.filed
  · rw [htrades]
    exact h.sorted
  · rw [htrades, hlocks]
    exact h.told

def SameLedger (s s' : EngineRun) : Prop :=
  s'.book.trades = s.book.trades ∧ s'.bankrupt = s.bankrupt

theorem SameLedger.trans {s s' s'' : EngineRun} (h : SameLedger s s') (h' : SameLedger s' s'') :
    SameLedger s s'' :=
  ⟨h'.1.trans h.1, h'.2.trans h.2⟩

def Adds (P : Trade → Prop) (s s' : EngineRun) : Prop :=
  ∃ rows, s'.book.trades = s.book.trades ++ rows ∧ ∀ row ∈ rows, P row

theorem Adds.trans {P : Trade → Prop} {s s' s'' : EngineRun} (h : Adds P s s')
    (h' : Adds P s' s'') :
    Adds P s s'' := by
  obtain ⟨rows, htrades, hrows⟩ := h
  obtain ⟨rows', htrades', hrows'⟩ := h'
  refine ⟨rows ++ rows', ?_, ?_⟩
  · rw [htrades', htrades, List.append_assoc]
  · intro row hrow
    rcases List.mem_append.1 hrow with hrow | hrow
    · exact hrows row hrow
    · exact hrows' row hrow

theorem Adds.refl (P : Trade → Prop) {s s' : EngineRun} (h : SameLedger s s') : Adds P s s' :=
  ⟨[], by rw [h.1, List.append_nil], fun _ hrow => absurd hrow List.not_mem_nil⟩

variable {ts : Timestamp} {i : ℕ}

variable {o : Observed}

theorem Kept.observe (h : Kept env S reg s)
    (hpast : ∀ row ∈ s.book.trades, row.exitTime < ts)
    (hobserve : env.observe i ts s = .ok (o, s')) :
    Kept env S reg s' ∧ Adds (fun row => row.exitTime = ts) s s' ∧ o.view.timestamp = ts ∧
      s'.bankrupt = s.bankrupt := by
  obtain ⟨l, hl, hreg, htold⟩ := h.told
  unfold EngineSetup.observe at hobserve
  dsimp only at hobserve
  generalize hout : env.book.advance (env.slice i ts s.previous) s.book = out at hobserve
  obtain ⟨outcome, book⟩ := out
  cases outcome with
  | error symbol => cases hobserve
  | ok advanced =>
    obtain ⟨howned, htrades, hstamped⟩ := h.owned.advance hout
    dsimp only at hobserve
    rw [hl] at hobserve
    unfold EngineSetup.tellLocks at hobserve
    dsimp only at hobserve
    generalize htell : l.book.tell env.sessions (advanced.trades.map ClosedTrade.of) = told
      at hobserve
    cases told with
    | error e => cases hobserve
    | ok locks =>
      dsimp only at hobserve
      generalize env.book.markToMarket (env.slice i ts s.previous) book.open_ = mark at hobserve
      cases mark with
      | none => cases hobserve
      | some mark =>
        obtain ⟨unrealised, exposure⟩ := mark
        cases hobserve
        refine ⟨⟨howned, ?_, ?_, ?_⟩, ?_, rfl, rfl⟩
        · intro row hrow
          rw [htrades] at hrow
          rcases List.mem_append.1 hrow with hrow | hrow
          · exact h.filed row hrow
          · exact (hstamped row hrow).2
        · rw [htrades]
          refine List.pairwise_append.2 ⟨h.sorted, ?_, ?_⟩
          · apply List.pairwise_of_forall_mem_list
            intro r hr r' hr'
            rw [(hstamped r hr).1, (hstamped r' hr').1]
          · intro r hr r' hr'
            rw [(hstamped r' hr').1]
            exact (hpast r hr).le
        · refine ⟨{ l with book := locks }, rfl, hreg, ?_⟩
          rw [htrades, List.map_append, LockBook.tell_append, htold]
          exact htell
        · exact ⟨advanced.trades, htrades, fun row hrow => (hstamped row hrow).1⟩

theorem Kept.bump (h : Kept env S reg s) (key : String) : Kept env S reg (s.bump key) :=
  h.congr ⟨h.owned.open_, h.owned.pending⟩ rfl rfl

variable {signal : TimedSignal}

theorem Kept.place (h : Kept env S reg s) (hsingle : env.SingleStrategy S) (sizeFor : SizeFor)
    (d : Decision) (hsignal : signal.strategyId = S) :
    Kept env S reg (env.place sizeFor d signal s) ∧
      SameLedger s (env.place sizeFor d signal s) := by
  unfold EngineSetup.place
  dsimp only
  split_ifs
  · exact ⟨h.bump _, rfl, rfl⟩
  · refine ⟨h.congr ?_ rfl rfl, rfl, rfl⟩
    have hcounted : s.book.nextSeq.Owned env.book S := ⟨h.owned.open_, h.owned.pending⟩
    refine hcounted.queueEntry ?_
    change env.book.strategyOf signal.strategyId = S
    rw [hsignal]
    exact hsingle.filed

variable {d : Decision}

theorem Kept.screen (h : Kept env S reg s) {goes : Bool}
    (hscreen : env.screen d signal s = .ok (s', goes)) : Kept env S reg s' ∧ SameLedger s s' := by
  obtain ⟨howned, htrades⟩ := h.owned.scheduleReversal signal.instrument signal.direction d.index
  unfold EngineSetup.screen at hscreen
  generalize s.book.scheduleReversal env.book signal.instrument signal.direction d.index = out
    at howned htrades hscreen
  obtain ⟨scheduled, book⟩ := out
  have hkept : Kept env S reg { s with book := book } := h.congr howned htrades rfl
  by_cases hdated : signal.barTime ≠ d.view.timestamp
  · rw [if_pos hdated] at hscreen
    cases hscreen
  rw [if_neg hdated] at hscreen
  by_cases hknown : env.data.get signal.instrument = none
  · rw [if_pos hknown] at hscreen
    cases hscreen
  rw [if_neg hknown] at hscreen
  dsimp only at hscreen
  split_ifs at hscreen
  · cases hscreen
    exact ⟨hkept.bump _, htrades, rfl⟩
  · cases hscreen
    exact ⟨hkept.bump _, htrades, rfl⟩
  · cases hlock : env.lockOf d signal s.locks with
    | error e =>
      rw [hlock] at hscreen
      cases hscreen
    | ok lock =>
      rw [hlock] at hscreen
      cases lock with
      | none =>
        cases hscreen
        exact ⟨hkept, htrades, rfl⟩
      | some lock =>
        cases hscreen
        exact ⟨(hkept.bump "instrument_lock").congr
          ⟨howned.open_, howned.pending⟩ rfl rfl, htrades, rfl⟩

theorem Kept.takeSignals (hsingle : env.SingleStrategy S) (signals batch : List TimedSignal)
    (hsignals : ∀ signal ∈ signals, signal.strategyId = S)
    (hbatch : ∀ signal ∈ batch, signal.strategyId = S) (h : Kept env S reg s)
    {held : List TimedSignal} (htake : env.takeSignals d signals s batch = .ok (s', held)) :
    Kept env S reg s' ∧ SameLedger s s' ∧ ∀ signal ∈ held, signal.strategyId = S := by
  induction signals generalizing s batch with
  | nil =>
    cases htake
    exact ⟨h, ⟨rfl, rfl⟩, hbatch⟩
  | cons signal rest ih =>
    have hsignal := hsignals signal List.mem_cons_self
    have hrest := fun x hx => hsignals x (List.mem_cons_of_mem signal hx)
    have hcounted : Kept env S reg { s with signalsSeen := s.signalsSeen + 1 } :=
      h.congr h.owned rfl rfl
    unfold EngineSetup.takeSignals at htake
    generalize hscreen : env.screen d signal { s with signalsSeen := s.signalsSeen + 1 } = out
      at htake
    cases out with
    | error e => cases htake
    | ok screened =>
      obtain ⟨s₁, goes⟩ := screened
      obtain ⟨hkept, hsame⟩ := hcounted.screen hscreen
      cases goes with
      | false =>
        obtain ⟨hkept', hsame', hheld⟩ := ih batch hrest hbatch hkept htake
        exact ⟨hkept', hsame.trans hsame', hheld⟩
      | true =>
        dsimp only at htake
        split_ifs at htake
        · have hlonger : ∀ x ∈ batch ++ [signal], x.strategyId = S := by
            intro x hx
            rcases List.mem_append.1 hx with hx | hx
            · exact hbatch x hx
            · rw [List.mem_singleton.1 hx]
              exact hsignal
          obtain ⟨hkept', hsame', hheld⟩ := ih _ hrest hlonger hkept htake
          exact ⟨hkept', hsame.trans hsame', hheld⟩
        · obtain ⟨hplaced, hstays⟩ := hkept.place hsingle env.sizer.sizeFor d hsignal
          obtain ⟨hkept', hsame', hheld⟩ := ih batch hrest hbatch hplaced htake
          exact ⟨hkept', (hsame.trans hstays).trans hsame', hheld⟩

theorem Kept.takeBatch (hsingle : env.SingleStrategy S) (decisions : List AllocationDecision)
    (batch : List TimedSignal)
    (hbatch : ∀ signal ∈ batch, signal.strategyId = S) (h : Kept env S reg s)
    (htake : env.takeBatch d decisions batch s = .ok s') : Kept env S reg s' ∧ SameLedger s s' := by
  induction batch generalizing s with
  | nil =>
    cases htake
    exact ⟨h, rfl, rfl⟩
  | cons signal rest ih =>
    have hrest := fun x hx => hbatch x (List.mem_cons_of_mem signal hx)
    unfold EngineSetup.takeBatch at htake
    cases hfound : decisionFor decisions signal.signalId with
    | none =>
      rw [hfound] at htake
      cases htake
    | some a =>
      rw [hfound] at htake
      dsimp only at htake
      split_ifs at htake
      · obtain ⟨hkept, hsame⟩ := ih hrest (h.bump "allocation_dropped") htake
        exact ⟨hkept, hsame⟩
      · obtain ⟨hplaced, hstays⟩ := h.place hsingle
          (env.sizer.allocated (a.baseRiskPct / 100) a.weight) d (hbatch signal List.mem_cons_self)
        obtain ⟨hkept, hsame⟩ := ih hrest hplaced htake
        exact ⟨hkept, hstays.trans hsame⟩

theorem Kept.decideBar (hsingle : env.SingleStrategy S) (h : Kept env S reg s)
    (hdecide : env.decideBar i o s = .ok s') : Kept env S reg s' ∧ SameLedger s s' := by
  unfold EngineSetup.decideBar at hdecide
  dsimp only at hdecide
  generalize htake : env.takeSignals _ _ s [] = out at hdecide
  cases out with
  | error e => cases hdecide
  | ok taken =>
    obtain ⟨s₁, held⟩ := taken
    obtain ⟨hkept, hsame, hheld⟩ := Kept.takeSignals hsingle _ [] (hsingle.signals _)
      (fun _ hx => absurd hx List.not_mem_nil) h htake
    dsimp only at hdecide
    split at hdecide
    · cases hdecide
      exact ⟨hkept, hsame⟩
    · cases hdecide
      exact ⟨hkept, hsame⟩
    · obtain ⟨hkept', hsame'⟩ := Kept.takeBatch hsingle _ _ hheld hkept hdecide
      exact ⟨hkept', hsame.trans hsame'⟩

theorem Kept.step (hsingle : env.SingleStrategy S) (h : Kept env S reg s)
    (hpast : ∀ row ∈ s.book.trades, row.exitTime < ts)
    (hstep : env.step i ts s = .ok s') :
    Adds (fun row => row.exitTime = ts) s s' ∧ (s'.bankrupt = false → Kept env S reg s') := by
  unfold EngineSetup.step at hstep
  generalize hobserve : env.observe i ts s = out at hstep
  cases out with
  | error e => cases hstep
  | ok observed =>
    obtain ⟨o, s₁⟩ := observed
    obtain ⟨hkept, hadds, hview, -⟩ := h.observe hpast hobserve
    dsimp only at hstep
    split_ifs at hstep
    · cases hstep
      refine ⟨hadds.trans ?_, fun hfalse => by cases hfalse⟩
      obtain ⟨htrades, hrows⟩ := hkept.owned.flatten o.view .marginCall fun _ => true
      refine ⟨_, htrades, fun row hrow => ?_⟩
      rw [← hview]
      exact (hrows row hrow).1
    · obtain ⟨hkept', hsame⟩ := hkept.decideBar hsingle hstep
      exact ⟨hadds.trans (.refl _ hsame), fun _ => hkept'⟩

theorem Kept.runBars (hsingle : env.SingleStrategy S) (bars : List (Timestamp × ℕ))
    (hbars : bars.Pairwise fun b b' => b.1 < b'.1) (h : Kept env S reg s)
    (hpast : ∀ row ∈ s.book.trades, ∀ b ∈ bars, row.exitTime < b.1)
    (hrun : env.runBars bars s = .ok s') :
    Adds (fun row => ∃ b ∈ bars, row.exitTime = b.1) s s' ∧
      (s'.bankrupt = false → Kept env S reg s') := by
  induction bars generalizing s with
  | nil =>
    cases hrun
    exact ⟨.refl _ ⟨rfl, rfl⟩, fun _ => h⟩
  | cons bar rest ih =>
    obtain ⟨ts, i⟩ := bar
    obtain ⟨hlater, hrest⟩ := List.pairwise_cons.1 hbars
    unfold EngineSetup.runBars at hrun
    cases hstep : env.step i ts s with
    | error e =>
      rw [hstep] at hrun
      cases hrun
    | ok s₁ =>
      rw [hstep] at hrun
      obtain ⟨⟨rows, htrades, hrows⟩, hkept⟩ := h.step hsingle
        (fun row hrow => hpast row hrow (ts, i) List.mem_cons_self) hstep
      have hadds : Adds (fun row => ∃ b ∈ (ts, i) :: rest, row.exitTime = b.1) s s₁ :=
        ⟨rows, htrades, fun row hrow => ⟨(ts, i), List.mem_cons_self, hrows row hrow⟩⟩
      dsimp only at hrun
      split_ifs at hrun with hbankrupt
      · cases hrun
        exact ⟨hadds, hkept⟩
      · have hgoes' : s₁.bankrupt = false := by simpa using hbankrupt
        have hpast' : ∀ row ∈ s₁.book.trades, ∀ b ∈ rest, row.exitTime < b.1 := by
          intro row hrow b hb
          rw [htrades] at hrow
          rcases List.mem_append.1 hrow with hrow | hrow
          · exact hpast row hrow b (List.mem_cons_of_mem _ hb)
          · rw [hrows row hrow]
            exact hlater b hb
        obtain ⟨⟨rows', htrades', hrows'⟩, hlast⟩ := ih hrest (hkept hgoes') hpast' hrun
        refine ⟨hadds.trans ⟨rows', htrades', fun row hrow => ?_⟩, hlast⟩
        obtain ⟨b, hb, heq⟩ := hrows' row hrow
        exact ⟨b, List.mem_cons_of_mem _ hb, heq⟩

theorem timeline_increasing (env : EngineSetup) : env.timeline.Pairwise (· < ·) := by
  unfold timeline
  have hsorted := List.pairwise_insertionSort (· ≤ ·)
    (env.data.entries.flatMap fun e => e.2.times).dedup
  have hnodup : (((env.data.entries.flatMap fun e => e.2.times).dedup).insertionSort
      (· ≤ ·)).Nodup :=
    (List.perm_insertionSort (· ≤ ·) _).nodup_iff.2 (List.nodup_dedup _)
  exact (hsorted.and hnodup).imp fun h => lt_of_le_of_ne h.1 h.2

theorem le_last (env : EngineSetup) {ts last : Timestamp} (hts : ts ∈ env.timeline)
    (hlast : env.timeline.getLast? = some last) : ts ≤ last := by
  obtain ⟨before, hbefore⟩ := List.getLast?_eq_some_iff.1 hlast
  have h := env.timeline_increasing
  rw [hbefore] at h hts
  rcases List.mem_append.1 hts with hts | hts
  · exact ((List.pairwise_append.1 h).2.2 ts hts last List.mem_cons_self).le
  · exact (List.mem_singleton.1 hts).le

theorem bars_increasing (env : EngineSetup) :
    env.timeline.zipIdx.Pairwise fun b b' => b.1 < b'.1 := by
  have h := env.timeline_increasing
  rw [← List.zipIdx_map_fst 0 env.timeline] at h
  exact List.pairwise_map.1 h

theorem timeline_split {k : ℕ} (hk : k < env.timeline.length) :
    env.timeline.zipIdx = env.timeline.zipIdx.take k ++
      (env.timeline.getD k 0, k) :: env.timeline.zipIdx.drop (k + 1) := by
  have hlength : k < env.timeline.zipIdx.length := by
    rw [List.length_zipIdx]
    exact hk
  have hget : env.timeline.zipIdx[k] = (env.timeline.getD k 0, k) := by
    rw [List.getElem_zipIdx, Nat.zero_add, List.getD_eq_getElem?_getD,
      List.getElem?_eq_getElem hk, Option.getD_some]
  rw [← hget, List.getElem_cons_drop, List.take_append_drop]

theorem finish_adds (hts : ts ∈ env.timeline)
    (howned : s.bankrupt = false → s.book.Owned env.book S) :
    Adds (fun row => row.exitReason = .endOfData ∧ ts ≤ row.exitTime) s (env.finish s) := by
  unfold finish
  cases hlast : env.timeline.getLast? with
  | none => exact .refl _ ⟨rfl, rfl⟩
  | some last =>
    dsimp only
    split_ifs with hends
    · obtain ⟨htrades, hrows⟩ := (howned hends.2.2).flatten
        (env.slice (env.timeline.length - 1) last s.previous) .endOfData fun _ => true
      refine ⟨_, htrades, fun row hrow => ?_⟩
      obtain ⟨htime, -, hreason⟩ := hrows row hrow
      refine ⟨hreason, ?_⟩
      rw [htime]
      exact env.le_last hts hlast
    · exact .refl _ ⟨rfl, rfl⟩

theorem runBars_append {before rest : List (Timestamp × ℕ)}
    (hbefore : env.runBars before s = .ok s')
    (hgoes : s'.bankrupt = false) : env.runBars (before ++ rest) s = env.runBars rest s' := by
  induction before generalizing s with
  | nil =>
    cases hbefore
    rfl
  | cons bar before ih =>
    obtain ⟨ts, i⟩ := bar
    unfold EngineSetup.runBars at hbefore
    rw [List.cons_append]
    conv_lhs => unfold EngineSetup.runBars
    cases hstep : env.step i ts s with
    | error e =>
      rw [hstep] at hbefore
      cases hbefore
    | ok s₁ =>
      rw [hstep] at hbefore
      dsimp only at hbefore ⊢
      split_ifs at hbefore ⊢ with hbankrupt
      · cases hbefore
        rw [hgoes] at hbankrupt
        cases hbankrupt
      · exact ih hbefore

/-- A bar of the run on which the strategy is asked, and the run once it is observed. -/
structure DecisionBar (env : EngineSetup) (i : ℕ) (ts : Timestamp) (s : EngineRun) : Prop where
  reached : ∃ registration before after earlier o, env.lockRegistration = .ok registration ∧
      env.timeline.zipIdx = before ++ (ts, i) :: after ∧
      env.runBars before (env.start registration) = .ok earlier ∧ earlier.bankrupt = false ∧
      env.observe i ts earlier = .ok (o, s) ∧ env.bankruptcyEquity < o.equity

/-- A row of a later bar, or of this one where the data ends at it. -/
structure Beyond (ts : Timestamp) (row : Trade) : Prop where
  notBefore : ts ≤ row.exitTime
  ends : row.exitTime = ts → row.exitReason = .endOfData

theorem Beyond.of_lt {row : Trade} (h : ts < row.exitTime) : Beyond ts row :=
  ⟨h.le, fun heq => absurd heq h.ne'⟩

/-- At a decision bar the locks know the rows up to it, and every row that the run writes
afterwards is later, or is written at the end of the data. -/
theorem DecisionBar.spec {final : EngineRun} (hsingle : env.SingleStrategy S)
    (hreg : env.lockRegistration = .ok (some reg))
    (hrun : env.run = .ok final) (hbar : env.DecisionBar i ts s) :
    Kept env S reg s ∧ (∀ row ∈ s.book.trades, row.exitTime ≤ ts) ∧ Adds (Beyond ts) s final := by
  obtain ⟨registration, before, after, earlier, o, hreg', hbars, hbefore, hgoes,
    hobserve, hsolvent⟩ :=
    hbar.reached
  obtain rfl : some reg = registration := Except.ok.inj (hreg.symm.trans hreg')
  have hincreasing := env.bars_increasing
  rw [hbars] at hincreasing
  obtain ⟨hpairsBefore, hpairsAfter, hacross⟩ := List.pairwise_append.1 hincreasing
  obtain ⟨hlater, hpairsLater⟩ := List.pairwise_cons.1 hpairsAfter
  obtain ⟨⟨rows, htrades, hrows⟩, hearlier⟩ := (Kept.start env S reg).runBars hsingle before
    hpairsBefore (fun _ hrow => absurd hrow List.not_mem_nil) hbefore
  have hpast : ∀ row ∈ earlier.book.trades, row.exitTime < ts := by
    intro row hrow
    rw [htrades] at hrow
    obtain ⟨b, hb, heq⟩ := hrows row hrow
    rw [heq]
    exact hacross b hb (ts, i) List.mem_cons_self
  obtain ⟨hkept, ⟨new, hnew, hstamped⟩, -, hbankrupt⟩ := (hearlier hgoes).observe hpast hobserve
  have hupto : ∀ row ∈ s.book.trades, row.exitTime ≤ ts := by
    intro row hrow
    rw [hnew] at hrow
    rcases List.mem_append.1 hrow with hrow | hrow
    · exact (hpast row hrow).le
    · exact (hstamped row hrow).le
  refine ⟨hkept, hupto, ?_⟩
  unfold run at hrun
  rw [hreg] at hrun
  dsimp only at hrun
  rw [hbars, runBars_append hbefore hgoes] at hrun
  unfold EngineSetup.runBars EngineSetup.step at hrun
  rw [hobserve] at hrun
  dsimp only at hrun
  rw [if_neg (not_le.2 hsolvent)] at hrun
  cases hdecide : env.decideBar i o s with
  | error e =>
    rw [hdecide] at hrun
    cases hrun
  | ok s₁ =>
    obtain ⟨hkept₁, hsame⟩ := hkept.decideBar hsingle hdecide
    rw [hdecide] at hrun
    dsimp only at hrun
    have hgoes₁ : s₁.bankrupt = false := hsame.2.trans (hbankrupt.trans hgoes)
    rw [if_neg (by rw [hgoes₁]; exact Bool.false_ne_true)] at hrun
    cases hrest : env.runBars after s₁ with
    | error e =>
      rw [hrest] at hrun
      cases hrun
    | ok s₂ =>
      rw [hrest] at hrun
      cases hrun
      have hpast₁ : ∀ row ∈ s₁.book.trades, ∀ b ∈ after, row.exitTime < b.1 := by
        intro row hrow b hb
        rw [hsame.1] at hrow
        exact (hupto row hrow).trans_lt (hlater b hb)
      obtain ⟨⟨rest, htrades₂, hrows₂⟩, hkept₂⟩ :=
        hkept₁.runBars hsingle after hpairsLater hpast₁ hrest
      have hadds : Adds (Beyond ts) s₁ s₂ := by
        refine ⟨rest, htrades₂, fun row hrow => Beyond.of_lt ?_⟩
        obtain ⟨b, hb, heq⟩ := hrows₂ row hrow
        rw [heq]
        exact hlater b hb
      have hts : ts ∈ env.timeline := by
        have hmem : (ts, i) ∈ env.timeline.zipIdx := by
          rw [hbars]
          exact List.mem_append_right _ List.mem_cons_self
        exact List.fst_mem_of_mem_zipIdx hmem
      obtain ⟨last, hlast, hreason⟩ := finish_adds hts fun h => (hkept₂ h).owned
      exact ((Adds.refl _ hsame).trans hadds).trans
        ⟨last, hlast, fun row hrow => ⟨(hreason row hrow).2, fun _ => (hreason row hrow).1⟩⟩

end EngineSetup

namespace LedgerLockView

variable {env : EngineSetup} {S : String} {reg : LockRegistration}

theorem sameBlocks_of {xs ys : List Trade} (h : StableSort.SameBlocks Trade.exitTime xs ys) :
    StableSort.SameBlocks ClosedTrade.exitTime (xs.map ClosedTrade.of) (ys.map ClosedTrade.of) := by
  intro k
  have hmap : ∀ zs : List Trade, StableSort.block ClosedTrade.exitTime k (zs.map ClosedTrade.of) =
      (StableSort.block Trade.exitTime k zs).map ClosedTrade.of := by
    intro zs
    unfold StableSort.block
    rw [List.filter_map]
    rfl
  rw [hmap, hmap, h]

theorem refusal_of_registered {S : String} {reg : LockRegistration}
    (closes : Except String (List ClosedTrade)) (declared : Bool) {timeframe : Option String}
    (htimeframe : timeframe = none ∨ timeframe = some reg.timeframe.value) :
    refusal ⟨Dict.empty.set S reg, closes⟩ S declared timeframe = none := by
  unfold refusal
  split_ifs
  · rfl
  · dsimp only
    rw [Dict.get_set_self]
    rcases htimeframe with rfl | rfl
    · rfl
    · dsimp only
      rw [Timeframe.ofValue_value]
      exact if_pos rfl

theorem rebuild_of_kept {s final : EngineRun} {ts : Timestamp} {ledger : List Trade}
    (hkept : env.Kept S reg s) (hupto : ∀ row ∈ s.book.trades, row.exitTime ≤ ts)
    (hadds : EngineSetup.Adds (EngineSetup.Beyond ts) s final)
    (hledger : StableSort.SameBlocks Trade.exitTime ledger final.book.trades)
    (hends : ∀ row ∈ ledger, row.exitReason = .endOfData → row.exitTime ≠ ts) :
    ∃ l, s.locks = some l ∧ LockBook.rebuild env.sessions (Dict.empty.set S reg) none
        ((ledger.map ClosedTrade.of).filter fun r => r.exitTime ≤ ts) =
          .ok (l.book.byName S reg) := by
  obtain ⟨l, hl, -, htold⟩ := hkept.told
  obtain ⟨rows, htrades, hrows⟩ := hadds
  refine ⟨l, hl, ?_⟩
  have hcut : final.book.trades.filter (fun row => row.exitTime ≤ ts) = s.book.trades := by
    rw [htrades, List.filter_append, List.filter_eq_self.2, List.filter_eq_nil_iff.2,
      List.append_nil]
    · intro row hrow hle
      have heq : row.exitTime = ts := le_antisymm (of_decide_eq_true hle) (hrows row hrow).notBefore
      have hmem : row ∈ final.book.trades := by
        rw [htrades]
        exact List.mem_append_right _ hrow
      exact hends row (hledger.symm.mem _ hmem) ((hrows row hrow).ends heq) heq
    · intro row hrow
      exact decide_eq_true (hupto row hrow)
  have hfilter : (ledger.map ClosedTrade.of).filter (fun r => r.exitTime ≤ ts) =
      (ledger.filter fun row => row.exitTime ≤ ts).map ClosedTrade.of := by
    rw [List.filter_map]
    rfl
  have hblocks := sameBlocks_of (hledger.filter Trade.exitTime fun time => time ≤ ts)
  rw [hcut] at hblocks
  have hsorted : (s.book.trades.map ClosedTrade.of).Pairwise
      fun c c' => c.exitTime ≤ c'.exitTime := List.pairwise_map.2 hkept.sorted
  have hsort : StableSort.sortBy ClosedTrade.exitTime
      ((ledger.map ClosedTrade.of).filter fun r => r.exitTime ≤ ts) =
        s.book.trades.map ClosedTrade.of := by
    rw [hfilter, hblocks.sortBy_eq, StableSort.sortBy_of_sorted _ hsorted]
  have hnames : ∀ c ∈ s.book.trades.map ClosedTrade.of, c.strategyId = S := by
    intro c hc
    obtain ⟨row, hrow, rfl⟩ := List.mem_map.1 hc
    exact hkept.filed row hrow
  unfold LockBook.rebuild
  rw [hsort]
  exact LockBook.tell_byName _ (.fresh S reg) hnames htold

/-- On every decision bar of a run of one strategy that declares locks, the view of any
ledger with the run's rows, in any order but that of rows of one exit time, answers as the
engine's own lock book does, where no row written at the end of the data carries the time
of the bar. -/
theorem lockFor_eq_isLocked (hreg : env.lockRegistration = .ok (some reg))
    (hsingle : env.SingleStrategy S) {final : EngineRun} (hrun : env.run = .ok final)
    {ledger : List Trade} (hledger : StableSort.SameBlocks Trade.exitTime ledger final.book.trades)
    {i : ℕ} {ts : Timestamp} {s : EngineRun} (hbar : env.DecisionBar i ts s)
    (hends : ∀ row ∈ ledger, row.exitReason = .endOfData → row.exitTime ≠ ts)
    (instrument : String) (declared : Bool) {timeframe : Option String}
    (htimeframe : timeframe = none ∨ timeframe = some reg.timeframe.value) :
    ∃ l, s.locks = some l ∧
      lockFor env.sessions ⟨Dict.empty.set S reg, .ok (ledger.map ClosedTrade.of)⟩ instrument S ts
          declared timeframe =
        (l.book.isLocked env.sessions instrument S ts).mapError LockViewError.lock := by
  obtain ⟨hkept, hupto, hadds⟩ := hbar.spec hsingle hreg hrun
  obtain ⟨l, hl, hrebuild⟩ := rebuild_of_kept hkept hupto hadds hledger hends
  refine ⟨l, hl, ?_⟩
  unfold lockFor
  rw [refusal_of_registered _ declared htimeframe]
  dsimp only
  rw [hrebuild]
  have hsame : (l.book.byName S reg).isLocked env.sessions instrument S ts =
      l.book.isLocked env.sessions instrument S ts := rfl
  dsimp only
  rw [hsame]
  cases l.book.isLocked env.sessions instrument S ts with
  | error e | ok lock => rfl

end LedgerLockView

namespace EngineSample

open Frictionless LockBook

def row (hours : ℤ) (price : ℚ) : FrameRow :=
  ⟨flatBar (lockAnchor + hours * hourNs) price, fun _ => none⟩

/-- Six hours of `EURUSD`: the price falls through a stop at the third. -/
def rows : List FrameRow := [row 0 100, row 1 100, row 2 90, row 3 100, row 4 100, row 5 100]

theorem rows_increasing : rows.Pairwise fun r r' => r.time < r'.time := by decide

def frame : Frame := ⟨rows, List.cons_ne_nil _ _, rows_increasing⟩

theorem stop_side : StopSide .long 100 95 := by decide

theorem no_targets : ∀ x ∈ ([] : List ℚ), TargetSide .long 100 x :=
  fun _ h => absurd h List.not_mem_nil

theorem no_allocations : ([] : List ℚ) ≠ [] → AllocationsOk [] [] := fun h => absurd rfl h

def signal (ts : Timestamp) : TimedSignal where
  strategyId := "sample"
  instrument := "EURUSD"
  direction := .long
  barTime := ts
  referencePrice := 100
  stopPrice := 95
  takeProfitPrices := []
  takeProfitAllocations := []
  signalId := "sig"
  stop_pos := by norm_num
  reference_pos := by norm_num
  stop_side := stop_side
  target_side := no_targets
  allocations_ok := no_allocations
  timeframe := "H1"

def engine : EngineSetup where
  book := { Frictionless.book with policy := { defaultExitPolicy with locks := some ⟨1, none⟩ } }
  initialBalance := 1000
  bankruptcyEquity := 0
  closeAtEndOfData := true
  construction := none
  strategy ctx := if ctx.barIndex = 0 ∨ ctx.barIndex = 3 then [signal ctx.timestamp] else []
  sizer := ⟨none, fun _ _ _ _ => 1, fun _ _ _ _ _ _ => 1⟩
  instruments := instruments
  sessions := winterSessions
  data := Dict.empty.set "EURUSD" frame
  data_nonempty := List.cons_ne_nil _ _

def registration : LockRegistration := ⟨⟨1, none⟩, .H1⟩

theorem lockRegistration_engine : engine.lockRegistration = .ok (some registration) := by
  decide

theorem single : engine.SingleStrategy "sample" where
  signals ctx x hx := by
    unfold engine at hx
    dsimp only at hx
    split_ifs at hx
    · rw [List.mem_singleton.1 hx]
      rfl
    · cases hx
  named := by decide

/-- The run once bar `k` is observed. -/
def observedAt (k : ℕ) : Except EngineError (Observed × EngineRun) :=
  match engine.runBars (engine.timeline.zipIdx.take k) (engine.start (some registration)) with
  | .error e => .error e
  | .ok s =>
    if s.bankrupt then .error .unmarked
    else engine.observe k (engine.timeline.getD k 0) s

theorem decisionBar {k : ℕ} {o : Observed} {s : EngineRun} (hk : k < engine.timeline.length)
    (hobserved : observedAt k = .ok (o, s)) (hsolvent : engine.bankruptcyEquity < o.equity) :
    engine.DecisionBar k (engine.timeline.getD k 0) s := by
  unfold observedAt at hobserved
  cases hrun : engine.runBars (engine.timeline.zipIdx.take k)
    (engine.start (some registration)) with
  | error e =>
    rw [hrun] at hobserved
    cases hobserved
  | ok earlier =>
    rw [hrun] at hobserved
    dsimp only at hobserved
    split_ifs at hobserved with hbankrupt
    · exact ⟨some registration, _, _, earlier, o, lockRegistration_engine,
        engine.timeline_split hk, hrun, Bool.eq_false_iff.2 hbankrupt, hobserved, hsolvent⟩

def succeeds {ε α : Type} (x : Except ε α) (test : α → Bool) : Bool :=
  match x with
  | .error _ => false
  | .ok a => test a

theorem exists_of_succeeds {ε α : Type} {x : Except ε α} {test : α → Bool}
    (h : succeeds x test = true) : ∃ a, x = .ok a ∧ test a = true := by
  cases x with
  | error e => cases h
  | ok a => exact ⟨a, rfl, h⟩

def time (k : ℕ) : Timestamp := engine.timeline.getD k 0

def view (ledger : List Trade) : LedgerLockView :=
  ⟨Dict.empty.set "sample" registration, .ok (ledger.map ClosedTrade.of)⟩

def answer (k : ℕ) (s : EngineRun) : Option (Except LockError (Option LockReason)) :=
  s.locks.map fun l => l.book.isLocked winterSessions "EURUSD" "sample" (time k)

/-- What the runs below are read off. On the third bar the position has just been stopped out,
and the row that closes the run is not dated there; on the last bar the engine has not heard of
the close at the end of the data, while a view of its whole ledger has, and answers with a lock. -/
theorem sample_runs : (succeeds engine.run (fun final =>
      (final.book.trades.all fun row => row.exitReason ≠ .endOfData ∨ row.exitTime ≠ time 2) &&
        succeeds ((view final.book.trades).lockFor winterSessions "EURUSD" "sample" (time 5) true
          (some "H1")) Option.isSome) &&
      succeeds (observedAt 2) (fun observed =>
        decide (engine.bankruptcyEquity < observed.1.equity) &&
          (answer 2 observed.2).any fun r => succeeds r Option.isSome) &&
      succeeds (observedAt 5) (fun observed =>
        decide (engine.bankruptcyEquity < observed.1.equity) &&
          decide (answer 5 observed.2 = some (.ok none))) &&
      decide (5 < engine.timeline.length)) = true := by
  decide +kernel

theorem run_engine : ∃ final, engine.run = .ok final ∧
    (final.book.trades.all fun row => row.exitReason ≠ .endOfData ∨ row.exitTime ≠ time 2) = true ∧
    succeeds ((view final.book.trades).lockFor winterSessions "EURUSD" "sample" (time 5) true
      (some "H1")) Option.isSome = true := by
  have hruns := sample_runs
  simp only [Bool.and_eq_true] at hruns
  obtain ⟨final, hrun, hchecked⟩ := exists_of_succeeds hruns.1.1.1
  exact ⟨final, hrun, Bool.and_eq_true_iff.1 hchecked⟩

theorem observed_third : ∃ observed, observedAt 2 = .ok observed ∧
    (decide (engine.bankruptcyEquity < observed.1.equity) &&
      (answer 2 observed.2).any fun r => succeeds r Option.isSome) = true := by
  have hruns := sample_runs
  simp only [Bool.and_eq_true] at hruns
  exact exists_of_succeeds (by simpa only [Bool.and_eq_true] using hruns.1.1.2)

theorem observed_last : ∃ observed, observedAt 5 = .ok observed ∧
    (decide (engine.bankruptcyEquity < observed.1.equity) &&
      decide (answer 5 observed.2 = some (.ok none))) = true := by
  have hruns := sample_runs
  simp only [Bool.and_eq_true] at hruns
  exact exists_of_succeeds (by simpa only [Bool.and_eq_true] using hruns.1.2)

theorem five_lt_timeline : 5 < engine.timeline.length :=
  of_decide_eq_true (Bool.and_eq_true_iff.1 sample_runs).2

theorem hends_third {final : EngineRun} (h : (final.book.trades.all fun row =>
    row.exitReason ≠ .endOfData ∨ row.exitTime ≠ time 2) = true) :
    ∀ row ∈ final.book.trades, row.exitReason = .endOfData → row.exitTime ≠ time 2 := by
  intro row hrow hreason
  have hrow' := List.all_eq_true.1 h row hrow
  rcases of_decide_eq_true hrow' with hne | hne
  · exact absurd hreason hne
  · exact hne

end EngineSample

open EngineSample LockBook

/-- The third bar of the sample run. -/
theorem lockFor_eq_isLocked_sample : ∃ final s l, engine.run = .ok final ∧
    engine.DecisionBar 2 (time 2) s ∧ s.locks = some l ∧
      (view final.book.trades).lockFor winterSessions "EURUSD" "sample" (time 2) true (some "H1") =
        (l.book.isLocked winterSessions "EURUSD" "sample" (time 2)).mapError
          LockViewError.lock := by
  obtain ⟨final, hrun, hends, -⟩ := run_engine
  obtain ⟨⟨o, s⟩, hobserved, hchecked⟩ := observed_third
  obtain ⟨hsolvent, -⟩ := Bool.and_eq_true_iff.1 hchecked
  have hbar := decisionBar (by have := five_lt_timeline; omega) hobserved
    (of_decide_eq_true hsolvent)
  obtain ⟨l, hl, heq⟩ := LedgerLockView.lockFor_eq_isLocked lockRegistration_engine single hrun
    (StableSort.SameBlocks.refl Trade.exitTime final.book.trades) hbar (hends_third hends) "EURUSD"
    true (Or.inr rfl)
  exact ⟨final, s, l, hrun, hbar, hl, heq⟩

/-- The last bar of the sample run: the position that the end of the data closes there locks
the view and not the engine. -/
theorem lock_answers_differ : ∃ final s l, engine.lockRegistration = .ok (some registration) ∧
    engine.SingleStrategy "sample" ∧ engine.run = .ok final ∧ engine.DecisionBar 5 (time 5) s ∧
      s.locks = some l ∧ l.book.isLocked winterSessions "EURUSD" "sample" (time 5) = .ok none ∧
        (view final.book.trades).lockFor winterSessions "EURUSD" "sample" (time 5) true
          (some "H1") ≠ .ok none := by
  obtain ⟨final, hrun, -, hview⟩ := run_engine
  obtain ⟨⟨o, s⟩, hobserved, hchecked⟩ := observed_last
  obtain ⟨hsolvent, hanswer⟩ := Bool.and_eq_true_iff.1 hchecked
  have hbar := decisionBar five_lt_timeline hobserved (of_decide_eq_true hsolvent)
  obtain ⟨l, hl, hnone⟩ := Option.map_eq_some_iff.1 (of_decide_eq_true hanswer)
  refine ⟨final, s, l, lockRegistration_engine, single, hrun, hbar, hl, hnone, ?_⟩
  intro hok
  rw [hok] at hview
  cases hview

end Fiboki
