import Fiboki.Backtest.PositionLives

/-!
What the steps of a book keep of its positions and its waiting orders, and the rows by which the
positions that they close are posted.
-/

namespace Fiboki

/-- One position at two times: its terms, and the strategy that it is filed under. -/
structure SameOrder (op op' : ManagedPosition) : Prop extends SameTerms op op' where
  strategyId : op'.position.strategyId = op.position.strategyId

namespace SameOrder

variable {op op' op'' : ManagedPosition} (env : BookSetup)

theorem refl (op : ManagedPosition) : SameOrder op op := ⟨.refl op, rfl⟩

theorem trans (h : SameOrder op op') (h' : SameOrder op' op'') : SameOrder op op'' :=
  ⟨h.toSameTerms.trans h'.toSameTerms, h'.strategyId.trans h.strategyId⟩

variable (c : Closing)

theorem reduced : SameOrder c.op (env.reduced c) := ⟨sameTerms_reduced env c, rfl⟩

theorem afterLeg : SameOrder c.op (env.afterLeg c) := by
  refine ⟨sameTerms_afterLeg env c, ?_⟩
  unfold BookSetup.afterLeg
  split_ifs <;> rfl

variable (v : BarSlice)

variable (bar : Bar)

theorem seeBar (op : ManagedPosition) : SameOrder op (BookSetup.seeBar v bar op) := by
  refine ⟨sameTerms_seeBar v bar op, ?_⟩
  simp only [BookSetup.seeBar]
  split_ifs <;> rfl

theorem updateProtectiveStop (op : ManagedPosition) :
    SameOrder op (env.updateProtectiveStop v op) := by
  refine ⟨sameTerms_updateProtectiveStop env v op, ?_⟩
  simp only [BookSetup.updateProtectiveStop]
  split_ifs <;> rfl

theorem chargePosition {financing : FinancingModel} {v : BarSlice}
    (h : env.chargePosition financing v op = .ok op') : SameOrder op op' := by
  refine ⟨(sameTerms_chargePosition env h).1, ?_⟩
  simp only [BookSetup.chargePosition] at h
  split_ifs at h
  · exact Except.ok.inj h ▸ rfl
  · split at h
    · cases h
    · exact Except.ok.inj h ▸ rfl

theorem exitLoop (n : ℕ) (t : Turn) (op : ManagedPosition) :
    SameOrder op (env.exitLoop v bar n t op).2.1 := by
  rw [(Turn.Emits.exitLoop env v bar n t op).2]
  exact (exitFills_keeps env refl (fun _ _ _ => trans) (afterLeg env) v bar n op).1

theorem exitBar (t : Turn) (op : ManagedPosition) : SameOrder op (env.exitBar v bar t op).2.1 := by
  rw [(Turn.Emits.exitBar env v bar t op).2]
  exact (barFills_keeps env refl (fun _ _ _ => trans) (afterLeg env) seeBar
    (reduced env) v bar op).1

end SameOrder

/-- A property of positions that is settled by the orders that open them. -/
structure PositionKind (env : BookSetup) where
  Position : ManagedPosition → Prop
  Order : PendingEntry → Prop
  stable : ∀ {op op'}, SameOrder op op' → Position op → Position op'
  opens : ∀ v order fill seq, Order order → Position (env.openPosition v order fill seq)

structure PositionBook.Has {env : BookSetup} (k : PositionKind env) (b : PositionBook) : Prop where
  open_ : ∀ op ∈ b.open_, k.Position op
  pending : ∀ e ∈ b.pending, k.Order e

def BookSetup.tradeOf (env : BookSetup) (p : Closing × ExitReason) : Trade :=
  env.finalise (env.reduced p.1) p.1.time p.2

/-- Between two moments of a turn positions of a kind were closed, all at one time: each by a
final closing fill, with its leg and its trade. -/
def Turn.Posts {env : BookSetup} (k : PositionKind env) (time : Timestamp) (t t' : Turn) : Prop :=
  ∃ posts : List (Closing × ExitReason), (∀ p ∈ posts, k.Position p.1.op ∧ p.1.time = time) ∧
    t'.book.exitLegs.filter ExitLeg.final =
      t.book.exitLegs.filter ExitLeg.final ++ posts.map (fun p => env.legOf p.1) ∧
    t'.book.trades = t.book.trades ++ posts.map env.tradeOf ∧
    t'.result.trades = t.result.trades ++ posts.map env.tradeOf

namespace Turn.Posts

variable {env : BookSetup} {k : PositionKind env} {time : Timestamp} {v : BarSlice}
  {t t' t'' : Turn} {op : ManagedPosition}

theorem same (hlegs : t'.book.exitLegs = t.book.exitLegs) (htrades : t'.book.trades = t.book.trades)
    (hresult : t'.result.trades = t.result.trades) : Posts k time t t' := by
  refine ⟨[], fun p hp => absurd hp List.not_mem_nil, ?_, ?_, ?_⟩
  · rw [hlegs, List.map_nil, List.append_nil]
  · rw [htrades, List.map_nil, List.append_nil]
  · rw [hresult, List.map_nil, List.append_nil]

theorem refl (t : Turn) : Posts k time t t := same rfl rfl rfl

theorem trans (h : Posts k time t t') (h' : Posts k time t' t'') : Posts k time t t'' := by
  obtain ⟨posts, hposts, hlegs, htrades, hresult⟩ := h
  obtain ⟨posts', hposts', hlegs', htrades', hresult'⟩ := h'
  refine ⟨posts ++ posts', fun p hp => ?_, ?_, ?_, ?_⟩
  · exact (List.mem_append.1 hp).elim (hposts p) (hposts' p)
  · rw [hlegs', hlegs, List.map_append, List.append_assoc]
  · rw [htrades', htrades, List.map_append, List.append_assoc]
  · rw [hresult', hresult, List.map_append, List.append_assoc]

theorem leg (t : Turn) (op : ManagedPosition) (fill : ExitFill) (size : ℚ) :
    Posts k time t (env.realise t op fill time size false).1 := by
  refine ⟨[], fun p hp => absurd hp List.not_mem_nil, ?_, (List.append_nil _).symm,
    (List.append_nil _).symm⟩
  rw [(Turn.Emits.realise env t op fill time size false).rows, List.filter_append]
  rfl

theorem close (t : Turn) {c : Closing} (hop : k.Position c.op) (hfinal : c.final = true)
    {op' : ManagedPosition} (hop' : op' = env.reduced c ∨ op' = env.afterLeg c)
    (reason : ExitReason) : Posts k c.time t
      (env.settle (env.realise t c.op c.fill c.time c.size c.final).1 op' c.time reason) := by
  have htrade : env.finalise op' c.time reason = env.tradeOf (c, reason) := by
    rcases hop' with rfl | rfl
    · rfl
    · unfold BookSetup.afterLeg
      split_ifs <;> rfl
  refine ⟨[(c, reason)], fun p hp => ?_, ?_, ?_, ?_⟩
  · rw [List.mem_singleton.1 hp]
    exact ⟨hop, rfl⟩
  · have hrows := (Turn.Emits.realise env t c.op c.fill c.time c.size c.final).rows
    have hlast : [env.legOf c].filter ExitLeg.final = [env.legOf c] :=
      List.filter_cons_of_pos hfinal
    exact (congrArg (List.filter ExitLeg.final) hrows).trans
      ((List.filter_append _ _).trans (congrArg _ hlast))
  · exact congrArg (fun row => t.book.trades ++ [row]) htrade
  · exact congrArg (fun row => t.result.trades ++ [row]) htrade

theorem market (t : Turn) (hop : k.Position op) (fill : ExitFill) (ts : Timestamp)
    (reason : ExitReason) : Posts k ts t
      (env.settle (env.closeAtMarket t op fill ts).1 (env.closeAtMarket t op fill ts).2
        ts reason) :=
  close (c := ⟨op, fill, ts, op.position.size, true⟩) t hop rfl (.inl rfl) reason

def Exits (k : PositionKind env) (time : Timestamp) (t : Turn)
    (out : Turn × ManagedPosition × Option ExitReason) : Prop :=
  (out.2.2 = none → Posts k time t out.1) ∧
    ∀ reason, out.2.2 = some reason → Posts k time t (env.settle out.1 out.2.1 time reason)

theorem exitLoop (v : BarSlice) (bar : Bar) (n : ℕ) (t : Turn) (hop : k.Position op) :
    Exits k v.timestamp t (env.exitLoop v bar n t op) := by
  induction n generalizing t op with
  | zero => exact ⟨fun _ => refl t, nofun⟩
  | succ n ih =>
    cases hdecision : env.resolveFor v bar op op.position.size with
    | none =>
      rw [Turn.Emits.exitLoop_none env hdecision]
      exact ⟨fun _ => refl t, nofun⟩
    | some decision =>
      rw [Turn.Emits.exitLoop_some env hdecision]
      dsimp only
      cases hfinal : (env.closing v bar op decision).final with
      | true =>
        rw [if_pos rfl]
        refine ⟨nofun, fun reason _ => ?_⟩
        have hclose := close (c := env.closing v bar op decision) t hop hfinal (.inr rfl) reason
        rw [hfinal] at hclose
        exact hclose
      | false =>
        rw [if_neg Bool.false_ne_true]
        have hleg : Posts k v.timestamp t _ := leg t op (env.closing v bar op decision).fill
          (env.closing v bar op decision).size
        obtain ⟨hopen, hclosed⟩ := ih (env.realise t op (env.closing v bar op decision).fill
          v.timestamp (env.closing v bar op decision).size false).1
          (k.stable (.afterLeg env (env.closing v bar op decision)) hop)
        exact ⟨fun h => hleg.trans (hopen h), fun reason h => hleg.trans (hclosed reason h)⟩

theorem exitBar (v : BarSlice) (bar : Bar) (t : Turn) (hop : k.Position op) :
    Exits k v.timestamp t (env.exitBar v bar t op) := by
  have hseen := k.stable (.seeBar v bar op) hop
  have hloop := exitLoop v bar (op.legs.length + 1) t hseen
  have hkept := k.stable (.exitLoop env v bar (op.legs.length + 1) t _) hseen
  simp only [BookSetup.exitBar]
  generalize env.exitLoop v bar (op.legs.length + 1) t (BookSetup.seeBar v bar op) = out
    at hloop hkept ⊢
  obtain ⟨t', op', closed⟩ := out
  dsimp only
  split_ifs with htimed
  · refine ⟨by simp, fun reason _ => ?_⟩
    exact (hloop.1 htimed.1).trans (market t' hkept _ v.timestamp reason)
  · exact hloop

theorem resolvePosition (t : Turn) (hop : k.Position op) :
    Posts k v.timestamp t (env.resolvePosition v t op).1 ∧
      ∀ op' ∈ (env.resolvePosition v t op).2, k.Position op' := by
  simp only [BookSetup.resolvePosition]
  cases v.bars op.position.instrument with
  | none => exact ⟨refl t, fun op' hop' => Option.some.inj hop' ▸ hop⟩
  | some bar =>
    obtain ⟨hopen, hclosed⟩ := exitBar v bar t hop
    have hkept := k.stable (.exitBar env v bar t op) hop
    dsimp only
    generalize env.exitBar v bar t op = out at hopen hclosed hkept ⊢
    obtain ⟨t', op', closed⟩ := out
    cases closed with
    | none =>
      refine ⟨hopen rfl, fun q hq => ?_⟩
      obtain rfl := Option.some.inj hq
      exact k.stable (.updateProtectiveStop env v op') hkept
    | some reason =>
      refine ⟨(hclosed reason rfl).trans ?_, fun q hq => ?_⟩
      · dsimp only [BookSetup.armCooldown]
        split_ifs
        · exact refl _
        · exact same rfl rfl rfl
      · cases hq

variable {ops : List ManagedPosition}

theorem resolveEach (t : Turn) (hops : ∀ op ∈ ops, k.Position op) :
    Posts k v.timestamp t (env.resolveEach v t ops).1 ∧
      ∀ op ∈ (env.resolveEach v t ops).2, k.Position op := by
  induction ops generalizing t with
  | nil => exact ⟨refl t, hops⟩
  | cons op ops ih =>
    obtain ⟨hstep, hsurvivor⟩ := resolvePosition (v := v) t (hops op List.mem_cons_self)
    obtain ⟨hrest, hkept⟩ :=
      ih (env.resolvePosition v t op).1 fun q hq => hops q (List.mem_cons_of_mem _ hq)
    refine ⟨hstep.trans hrest, fun q hq => ?_⟩
    rcases List.mem_append.1 hq with hq | hq
    · exact hsurvivor q (Option.mem_toList.1 hq)
    · exact hkept q hq

theorem resolveExits (t : Turn) (h : ∀ op ∈ t.book.open_, k.Position op) :
    Posts k v.timestamp t (env.resolveExits v t) :=
  (resolveEach t h).1.trans (same rfl rfl rfl)

theorem runCloses {r : BookSetup.Reversing} (closes : List PendingClose)
    (h : ∀ op ∈ r.bySeq, k.Position op) :
    Posts k v.timestamp r.turn (env.runCloses v r closes).1.turn := by
  induction closes generalizing r with
  | nil => exact refl _
  | cons c closes ih =>
    have hstep : Posts k v.timestamp r.turn (env.runClose v r c).1.turn ∧
        ∀ op ∈ (env.runClose v r c).1.bySeq, k.Position op := by
      simp only [BookSetup.runClose]
      split
      · exact ⟨refl _, h⟩
      split
      · exact ⟨refl _, h⟩
      rename_i op hfind
      have hop := h op (List.mem_of_find?_eq_some hfind)
      split
      · exact ⟨refl _, h⟩
      · refine ⟨market r.turn hop _ _ _, fun q hq => ?_⟩
        obtain ⟨p, hp, rfl⟩ := List.mem_map.1 hq
        split_ifs
        · exact k.stable (.reduced env ⟨op, _, v.timestamp, op.position.size, true⟩) hop
        · exact h p hp
    exact hstep.1.trans (ih hstep.2)

theorem runPendingCloses (t : Turn) (h : ∀ op ∈ t.book.open_, k.Position op) :
    Posts k v.timestamp t (env.runPendingCloses v t) :=
  (runCloses (r := ⟨t, t.book.open_, t.book.open_⟩) t.book.pendingCloses h).trans
    (same rfl rfl rfl)

variable (v) in
theorem fillEach (t : Turn) (orders : List PendingEntry) :
    Posts k time t (env.fillEach v t orders).1 := by
  induction orders generalizing t with
  | nil => exact refl t
  | cons order orders ih =>
    refine trans ?_ (ih (env.fillEntry v t order).1)
    rcases env.fillEntry_cases v t order with ⟨-, h⟩ | ⟨_, -, -,
      ⟨_, -, h⟩ | ⟨-, ⟨_, -, h⟩ | ⟨_, -, h⟩⟩⟩
    all_goals
      rw [h]
      exact same rfl rfl rfl

variable (v) in
theorem fillEntries (t : Turn) : Posts k time t (env.fillEntries v t) :=
  (fillEach v t t.book.pending).trans (same rfl rfl rfl)

theorem flattenEach (t : Turn) (reason : ExitReason) (hops : ∀ op ∈ ops, k.Position op) :
    Posts k v.timestamp t (env.flattenEach v reason t ops) := by
  induction ops generalizing t with
  | nil => exact refl t
  | cons op ops ih =>
    have hrest : ∀ q ∈ ops, k.Position q := fun q hq => hops q (List.mem_cons_of_mem _ hq)
    simp only [BookSetup.flattenEach]
    split
    · exact ih t hrest
    · exact (market t (hops op List.mem_cons_self) _ v.timestamp reason).trans
        ((same rfl rfl rfl).trans (ih _ hrest))

end Turn.Posts

namespace PositionBook.Has

variable {env : BookSetup} {k : PositionKind env} {b b' : PositionBook} {t : Turn} {v : BarSlice}

theorem fresh (balance : ℚ) : Has k (.fresh balance) :=
  ⟨fun _ h => absurd h List.not_mem_nil, fun _ h => absurd h List.not_mem_nil⟩

theorem queueEntry (h : Has k b) {e : PendingEntry} (he : k.Order e) : Has k (b.queueEntry e) where
  open_ := h.open_
  pending e' he' := by
    rcases List.mem_append.1 he' with he' | he'
    · exact h.pending e' he'
    · exact List.mem_singleton.1 he' ▸ he

theorem chargeEach (financing : FinancingModel) (v : BarSlice) {ops : List ManagedPosition}
    (h : ∀ op ∈ ops, k.Position op) : ∀ op ∈ (env.chargeEach financing v ops).2, k.Position op := by
  induction ops with
  | nil => exact h
  | cons op ops ih =>
    simp only [BookSetup.chargeEach]
    cases hop : env.chargePosition financing v op with
    | error e => exact h
    | ok op' =>
      intro q hq
      rcases List.mem_cons.1 hq with rfl | hq
      · exact k.stable (.chargePosition env hop) (h op List.mem_cons_self)
      · exact ih (fun q hq => h q (List.mem_cons_of_mem _ hq)) q hq

theorem chargeFinancing (h : Has k b) (v : BarSlice) : Has k (env.chargeFinancing v b).2 := by
  simp only [BookSetup.chargeFinancing]
  cases env.financing with
  | none => exact h
  | some financing =>
    dsimp only
    split_ifs
    · exact h
    · exact ⟨chargeEach financing v h.open_, h.pending⟩

theorem runPendingCloses (h : Has k t.book) (v : BarSlice) :
    Has k (env.runPendingCloses v t).book := by
  obtain ⟨legs, hemits, hsub, -⟩ :=
    Turn.Emits.runCloses env v ⟨t, t.book.open_, t.book.open_⟩ t.book.pendingCloses
  exact ⟨fun op hop => h.open_ op (hsub.subset hop), fun e he => h.pending e (hemits.pending ▸ he)⟩

theorem fillEntry (h : Has k t.book) (v : BarSlice) {order : PendingEntry}
    (horder : k.Order order) :
    Has k (env.fillEntry v t order).1.book := by
  rcases env.fillEntry_cases v t order with ⟨-, hstep⟩ | ⟨bar, -, -, ⟨reason, -, hstep⟩ |
    ⟨-, ⟨reason, -, hstep⟩ | ⟨fill, -, hstep⟩⟩⟩
  · rw [hstep]
    exact h
  · rw [hstep]
    exact ⟨h.open_, h.pending⟩
  · rw [hstep]
    exact ⟨h.open_, h.pending⟩
  · rw [hstep]
    refine ⟨fun op hop => ?_, h.pending⟩
    rcases List.mem_append.1 hop with hop | hop
    · exact h.open_ op hop
    · exact List.mem_singleton.1 hop ▸ k.opens v order fill _ horder

theorem fillEach (h : Has k t.book) (v : BarSlice) {orders : List PendingEntry}
    (horders : ∀ e ∈ orders, k.Order e) :
    Has k (env.fillEach v t orders).1.book ∧ ∀ e ∈ (env.fillEach v t orders).2, k.Order e := by
  induction orders generalizing t with
  | nil => exact ⟨h, horders⟩
  | cons order orders ih =>
    have horder := horders order List.mem_cons_self
    obtain ⟨hbook, hstill⟩ :=
      ih (h.fillEntry v horder) fun e he => horders e (List.mem_cons_of_mem _ he)
    refine ⟨hbook, fun e he => ?_⟩
    simp only [BookSetup.fillEach] at he
    split_ifs at he
    · rcases List.mem_cons.1 he with rfl | he
      · exact horder
      · exact hstill e he
    · exact hstill e he

theorem fillEntries (h : Has k t.book) (v : BarSlice) : Has k (env.fillEntries v t).book := by
  obtain ⟨hbook, hstill⟩ := h.fillEach v h.pending
  exact ⟨hbook.open_, hstill⟩

theorem resolveExits (h : Has k t.book) (v : BarSlice) : Has k (env.resolveExits v t).book := by
  obtain ⟨legs, hemits, -⟩ := Turn.Emits.resolveEach env v t t.book.open_
  exact ⟨(Turn.Posts.resolveEach t h.open_).2, fun e he => h.pending e (hemits.pending ▸ he)⟩

theorem stages (h : Has k b) (v : BarSlice) :
    Has k (env.resolveExits v (env.fillEntries v (env.runPendingCloses v ⟨b, .empty⟩))).book ∧
      Turn.Posts k v.timestamp ⟨b, .empty⟩
        (env.resolveExits v (env.fillEntries v (env.runPendingCloses v ⟨b, .empty⟩))) := by
  have hcloses : Has k (env.runPendingCloses v ⟨b, .empty⟩).book :=
    runPendingCloses (t := ⟨b, .empty⟩) h v
  have hfilled := hcloses.fillEntries v
  exact ⟨hfilled.resolveExits v, (Turn.Posts.runPendingCloses ⟨b, .empty⟩ h.open_).trans
    ((Turn.Posts.fillEntries v _).trans (Turn.Posts.resolveExits _ hfilled.open_))⟩

theorem advance (h : Has k b) (v : BarSlice) : Has k (env.advance v b).2 := by
  have hcharged := h.chargeFinancing v
  rcases env.advance_cases v b with ⟨e, b', hcharge, hadvance⟩ | ⟨b', result, hcharge, hadvance, -⟩
  · rw [hadvance]
    rw [hcharge] at hcharged
    exact hcharged
  · rw [hadvance]
    rw [hcharge] at hcharged
    exact (hcharged.stages v).1

theorem flatten (h : Has k b) (v : BarSlice) (reason : ExitReason)
    (which : ManagedPosition → Bool) : Has k (env.flatten v reason which b).2 := by
  obtain ⟨hpending, -, -, hsub⟩ := env.flattenEach_keeps v reason ⟨b, .empty⟩ (b.open_.filter which)
  exact ⟨fun op hop => h.open_ op (hsub.subset hop), fun e he => h.pending e (hpending ▸ he)⟩

theorem scheduleReversal (h : Has k b) (instrument : String) (direction : Direction) (index : ℤ) :
    Has k (b.scheduleReversal env instrument direction index).2 := by
  unfold PositionBook.scheduleReversal
  split_ifs
  · exact h
  · refine ⟨fun op hop => ?_, h.pending⟩
    have hloop : op ∈ (PositionBook.scheduleLoop instrument direction
        (index + 1 + env.latencyBars) b.open_ b.seq).2.1 := hop
    rw [(Sound.scheduleLoop_spec instrument direction _ b.open_ b.seq).2.1] at hloop
    obtain ⟨op', hop', rfl⟩ := List.mem_map.1 hloop
    refine k.stable ?_ (h.open_ op' hop')
    split_ifs
    · exact ⟨⟨rfl, rfl, rfl, rfl, rfl, rfl, rfl, rfl, rfl⟩, rfl⟩
    · exact .refl op'

end PositionBook.Has

/-- Every position and every waiting order is in an instrument that `P` accepts. -/
structure PositionBook.Holds (P : Instrument → Prop) (b : PositionBook) : Prop where
  open_ : ∀ op ∈ b.open_, P op.instrument
  pending : ∀ e ∈ b.pending, P e.instrument

def PositionKind.inInstrument (env : BookSetup) (P : Instrument → Prop) : PositionKind env where
  Position op := P op.instrument
  Order e := P e.instrument
  stable h hop := h.instrument ▸ hop
  opens _ _ _ _ horder := horder

namespace PositionBook.Holds

variable {P : Instrument → Prop} {b : PositionBook} (env : BookSetup)

theorem of_has (h : b.Has (.inInstrument env P)) : Holds P b := ⟨h.open_, h.pending⟩

theorem has (h : Holds P b) : b.Has (.inInstrument env P) := ⟨h.open_, h.pending⟩

theorem fresh (balance : ℚ) : Holds P (.fresh balance) :=
  ⟨fun _ h => absurd h List.not_mem_nil, fun _ h => absurd h List.not_mem_nil⟩

theorem queueEntry (h : Holds P b) {e : PendingEntry} (he : P e.instrument) :
    Holds P (b.queueEntry e) where
  open_ := h.open_
  pending e' he' := by
    rcases List.mem_append.1 he' with he' | he'
    · exact h.pending e' he'
    · exact List.mem_singleton.1 he' ▸ he

theorem advance (h : Holds P b) (v : BarSlice) : Holds P (env.advance v b).2 :=
  of_has env ((h.has env).advance v)

theorem flatten (h : Holds P b) (v : BarSlice) (reason : ExitReason)
    (which : ManagedPosition → Bool) : Holds P (env.flatten v reason which b).2 :=
  of_has env ((h.has env).flatten v reason which)

theorem mapOpen (h : Holds P b) (f : ManagedPosition → ManagedPosition)
    (hf : ∀ op, (f op).instrument = op.instrument) : Holds P { b with open_ := b.open_.map f } where
  open_ op hop := by
    obtain ⟨op', hop', rfl⟩ := List.mem_map.1 hop
    exact (congrArg P (hf op')).mpr (h.open_ op' hop')
  pending := h.pending

end PositionBook.Holds

end Fiboki
