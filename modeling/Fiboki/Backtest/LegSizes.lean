import Fiboki.Backtest.PositionLives
import Fiboki.Lib.Drain

/-!
Sizes: what a ladder plans, and what the closing fills of a position take.
-/

namespace Fiboki

open Drain

section Plan

variable {i : Instrument} {filledSize : ℚ} {closesEverything : Bool}

variable (pairs : List (ℚ × ℚ))

theorem planRest_pos (allocated : ℚ) :
    ∀ leg ∈ planRest i filledSize closesEverything pairs allocated, 0 < leg.size := by
  induction pairs generalizing allocated with
  | nil => simp [planRest]
  | cons pair rest ih =>
    obtain ⟨price, allocation⟩ := pair
    intro leg hleg
    simp only [planRest] at hleg
    generalize (if rest.isEmpty && closesEverything then filledSize - allocated
      else roundSize i (snapToStep (filledSize * allocation) i.sizeStep)) = wanted at hleg
    split_ifs at hleg with hzero hdone
    · exact ih allocated leg hleg
    · rw [List.mem_singleton.1 hleg]
      exact not_le.1 hzero
    · rcases List.mem_cons.1 hleg with rfl | hleg
      · exact not_le.1 hzero
      · exact ih _ leg hleg

variable (closesEverything) in
theorem planRest_sum_le {allocated : ℚ} (h : allocated ≤ filledSize) :
    allocated + ((planRest i filledSize closesEverything pairs allocated).map
      TakeProfitLeg.size).sum ≤ filledSize := by
  induction pairs generalizing allocated with
  | nil => simpa [planRest] using h
  | cons pair rest ih =>
    obtain ⟨price, allocation⟩ := pair
    simp only [planRest]
    generalize (if rest.isEmpty && closesEverything then filledSize - allocated
      else roundSize i (snapToStep (filledSize * allocation) i.sizeStep)) = wanted
    have hroom : min wanted (filledSize - allocated) ≤ filledSize - allocated := min_le_right _ _
    split_ifs
    · exact ih h
    · simp only [List.map_cons, List.map_nil, List.sum_cons, List.sum_nil]
      linarith
    · have hrest := ih (show allocated + min wanted (filledSize - allocated) ≤ filledSize by
        linarith)
      simp only [List.map_cons, List.sum_cons]
      linarith

/-- A ladder that closes everything plans the whole size, or stops short of its last
target with no more than a trace of it left. -/
theorem planRest_all {allocated : ℚ} (h : allocated ≤ filledSize) (hpairs : pairs ≠ []) :
    allocated + ((planRest i filledSize true pairs allocated).map TakeProfitLeg.size).sum =
        filledSize ∨
      filledSize - 1 / 10 ^ 12 ≤ allocated +
          ((planRest i filledSize true pairs allocated).map TakeProfitLeg.size).sum ∧
        (planRest i filledSize true pairs allocated).length < pairs.length := by
  induction pairs generalizing allocated with
  | nil => exact absurd rfl hpairs
  | cons pair rest ih =>
    obtain ⟨price, allocation⟩ := pair
    cases rest with
    | nil =>
      left
      simp only [planRest, List.isEmpty_nil, Bool.and_self, if_true, min_self]
      split_ifs
      · simp only [List.map_nil, List.sum_nil]
        linarith
      · simp
      · simp
    | cons next rest =>
      rw [planRest]
      simp only [List.isEmpty_cons, Bool.false_and, Bool.false_eq_true, if_false]
      generalize roundSize i (snapToStep (filledSize * allocation) i.sizeStep) = wanted
      have hroom : min wanted (filledSize - allocated) ≤ filledSize - allocated := min_le_right _ _
      split_ifs with hzero hdone
      · rcases ih h (List.cons_ne_nil _ _) with heq | ⟨hle, hlt⟩
        · exact .inl heq
        · exact .inr ⟨hle, hlt.trans (Nat.lt_succ_self _)⟩
      · right
        simp only [List.map_cons, List.map_nil, List.sum_cons, List.sum_nil, List.length_cons,
          List.length_nil]
        exact ⟨by linarith, by omega⟩
      · have hnext : allocated + min wanted (filledSize - allocated) ≤ filledSize := by linarith
        simp only [List.map_cons, List.sum_cons, List.length_cons]
        rw [← add_assoc]
        rcases ih hnext (List.cons_ne_nil _ _) with heq | ⟨hle, hlt⟩
        · exact .inl heq
        · exact .inr ⟨hle, Nat.succ_lt_succ hlt⟩

theorem planLegs_sizes (prices allocations : List ℚ) (hfilled : 0 < filledSize)
    (haligned : allocations ≠ [] → allocations.length = prices.length) :
    (∀ leg ∈ planLegs i filledSize prices allocations, 0 < leg.size) ∧
      ((planLegs i filledSize prices allocations).map TakeProfitLeg.size).sum ≤ filledSize ∧
      (1 - 1 / 10 ^ 9 ≤ allocations.sum →
        ((planLegs i filledSize prices allocations).map TakeProfitLeg.size).sum = filledSize ∨
        filledSize - 1 / 10 ^ 12 ≤
            ((planLegs i filledSize prices allocations).map TakeProfitLeg.size).sum ∧
          (planLegs i filledSize prices allocations).length < prices.length) := by
  cases prices with
  | nil =>
    refine ⟨by simp [planLegs], by simpa [planLegs] using hfilled.le, fun hsum => ?_⟩
    have hnone : allocations = [] := by
      by_contra hne
      exact hne (List.length_eq_zero_iff.1 (haligned hne))
    rw [hnone] at hsum
    norm_num at hsum
  | cons price prices =>
    by_cases hnone : allocations = []
    · simp [planLegs, hnone, hfilled]
    · simp only [planLegs, if_neg hnone]
      have hsum := planRest_sum_le (i := i)
        (decide (1 - 1 / 10 ^ 9 ≤ allocations.sum))
        ((price :: prices).zip allocations) hfilled.le
      rw [zero_add] at hsum
      refine ⟨planRest_pos _ _, hsum, fun htotal => ?_⟩
      have hpairs : (price :: prices).zip allocations ≠ [] := by
        cases allocations with
        | nil => exact absurd rfl hnone
        | cons allocation allocations => simp
      have hlength : ((price :: prices).zip allocations).length = (price :: prices).length := by
        rw [List.length_zip, haligned hnone, min_self]
      have hall := planRest_all (i := i) ((price :: prices).zip allocations) hfilled.le hpairs
      rw [zero_add, hlength] at hall
      rw [decide_eq_true htotal]
      exact hall

end Plan

section Decision

variable {op : ManagedPosition}

theorem sizeForExit_pos (h : 0 < op.position.size) (fill : ExitFill) :
    0 < (op.sizeForExit fill).1 ∧ (op.sizeForExit fill).1 ≤ op.position.size ∧
      ((op.sizeForExit fill).2 = false →
        1 / 10 ^ 12 < op.position.size - (op.sizeForExit fill).1) := by
  unfold ManagedPosition.sizeForExit
  cases hleg : op.legs[op.nextLeg]? with
  | none => exact ⟨h, le_rfl, by simp⟩
  | some leg =>
    dsimp only
    split_ifs with hreason hresidue hsize
    · exact ⟨h, le_rfl, by simp⟩
    · exact ⟨h, le_rfl, by simp⟩
    · exact ⟨h, le_rfl, by simp⟩
    · exact ⟨not_le.1 hsize, min_le_right _ _, fun hopen => not_le.1 (of_decide_eq_false hopen)⟩

/-- Above a minimum size that is not itself a trace, the last fill takes exactly what there
is, and every other leaves the minimum size but for a trace. -/
theorem sizeForExit_exact (hmin : 2 / 10 ^ 12 < op.instrument.minSize) (fill : ExitFill) :
    ((op.sizeForExit fill).2 = true → (op.sizeForExit fill).1 = op.position.size) ∧
      ((op.sizeForExit fill).2 = false → op.instrument.minSize - 1 / 10 ^ 12 ≤
        op.position.size - (op.sizeForExit fill).1) := by
  unfold ManagedPosition.sizeForExit
  cases hleg : op.legs[op.nextLeg]? with
  | none => simp
  | some leg =>
    dsimp only
    split_ifs with hreason hresidue hsize
    · simp
    · simp
    · simp
    · have hle : min leg.size op.position.size ≤ op.position.size := min_le_right _ _
      have htwo : (2 : ℚ) / 10 ^ 12 = 1 / 10 ^ 12 + 1 / 10 ^ 12 := by ring
      rw [not_and_or, not_lt, not_lt] at hresidue
      rw [htwo] at hmin
      refine ⟨fun hfinal => ?_, fun hopen => ?_⟩
      · have htrace := of_decide_eq_true hfinal
        rcases hresidue with hresidue | hresidue <;> linarith
      · have hmore := not_le.1 (of_decide_eq_false hopen)
        rcases hresidue with hresidue | hresidue
        · have hpos : (0 : ℚ) < 1 / 10 ^ 12 := by positivity
          linarith
        · exact hresidue

end Decision

def Closing.take (c : Closing) : ℚ × Bool := (c.size, c.final)

structure Taken (least size : ℚ) (cs : List Closing) (left : ℚ) (closed : Option ExitReason) :
    Prop where
  drains : Drains least size (cs.map Closing.take) left
  open_ : closed = none → ∀ c ∈ cs, c.final = false
  closed : closed ≠ none → ∃ c ∈ cs, c.final = true

theorem Taken.trans {least size left left' : ℚ} {cs cs' : List Closing} {closed : Option ExitReason}
    (h : Taken least size cs left none)
    (h' : Taken least left cs' left' closed) : Taken least size (cs ++ cs') left' closed where
  drains := by
    rw [List.map_append]
    apply h.drains.append _ h'.drains
    intro x hx
    obtain ⟨c, hc, rfl⟩ := List.mem_map.1 hx
    exact h.open_ rfl c hc
  open_ hopen c hc := by
    rcases List.mem_append.1 hc with hc | hc
    · exact h.open_ rfl c hc
    · exact h'.open_ hopen c hc
  closed hclosed := by
    obtain ⟨c, hc, hfinal⟩ := h'.closed hclosed
    exact ⟨c, List.mem_append_right _ hc, hfinal⟩

theorem Taken.refl (least size : ℚ) : Taken least size [] size none :=
  ⟨.nil size, by simp, fun hne => absurd rfl hne⟩

theorem Taken.single {least : ℚ} {c : Closing} (hfinal : c.final = true) (reason : ExitReason) :
    Taken least c.size [c] 0 (some reason) where
  drains := by
    rw [List.map_singleton, Closing.take, hfinal]
    exact .all c.size
  open_ hne := absurd hne (by simp)
  closed _ := ⟨c, by simp, hfinal⟩

section Fills

variable (env : BookSetup) {op : ManagedPosition}

theorem taken_marketClosing (least : ℚ) (v : BarSlice) (bar : Bar) (reason : ExitReason) (price : ℚ)
    (spacing : Spacing) (op : ManagedPosition) :
    Taken least op.position.size [env.marketClosing v bar reason price spacing op]
      (env.reduced (env.marketClosing v bar reason price spacing op)).position.size
      (some reason) :=
  Taken.single (c := env.marketClosing v bar reason price spacing op) rfl reason

theorem exitFills_pos (h : 0 < op.position.size) (v : BarSlice) (bar : Bar) (n : ℕ) :
    (∀ c ∈ (env.exitFills v bar n op).1, 0 < c.size) ∧
      ((env.exitFills v bar n op).2.2 = none → 0 <
        (env.exitFills v bar n op).2.1.position.size) := by
  induction n generalizing op with
  | zero => exact ⟨by simp [BookSetup.exitFills], fun _ => h⟩
  | succ n ih =>
    simp only [BookSetup.exitFills]
    split
    · exact ⟨by simp, fun _ => h⟩
    · rename_i decision hdecision
      obtain ⟨hpos, hle, hmore⟩ := sizeForExit_pos h decision
      split_ifs with hfinal
      · refine ⟨fun c hc => ?_, by simp⟩
        rw [List.mem_singleton.1 hc]
        exact hpos
      · have hleft : 0 < (env.afterLeg (env.closing v bar op decision)).position.size := by
          rw [size_afterLeg, if_neg hfinal]
          have htrace : (0 : ℚ) < 1 / 10 ^ 12 := by positivity
          exact htrace.trans (hmore (Bool.eq_false_iff.2 hfinal))
        obtain ⟨hfills, hopen⟩ := ih hleft
        refine ⟨fun c hc => ?_, hopen⟩
        rcases List.mem_cons.1 hc with rfl | hc
        · exact hpos
        · exact hfills c hc

theorem exitFills_taken (h : 0 < op.position.size) (hmin : 2 / 10 ^ 12 < op.instrument.minSize)
    (v : BarSlice) (bar : Bar) (n : ℕ) :
    Taken (op.instrument.minSize - 1 / 10 ^ 12) op.position.size (env.exitFills v bar n op).1
      (env.exitFills v bar n op).2.1.position.size (env.exitFills v bar n op).2.2 := by
  induction n generalizing op with
  | zero => exact .refl _ _
  | succ n ih =>
    simp only [BookSetup.exitFills]
    split
    · exact .refl _ _
    · rename_i decision hdecision
      obtain ⟨-, -, hmore⟩ := sizeForExit_pos h decision
      obtain ⟨hall, hleast⟩ := sizeForExit_exact hmin decision
      split_ifs with hfinal
      · have hsize : (env.closing v bar op decision).size = op.position.size := hall hfinal
        rw [size_afterLeg, if_pos hfinal, ← hsize]
        exact .single hfinal _
      · have hopen : (env.closing v bar op decision).final = false := Bool.eq_false_iff.2 hfinal
        have hsize : (env.afterLeg (env.closing v bar op decision)).position.size =
            op.position.size - (env.closing v bar op decision).size := by
          rw [size_afterLeg, if_neg hfinal]
          rfl
        have hleft : 0 < (env.afterLeg (env.closing v bar op decision)).position.size := by
          rw [hsize]
          have htrace : (0 : ℚ) < 1 / 10 ^ 12 := by positivity
          exact htrace.trans (hmore hopen)
        have hinstrument : (env.afterLeg (env.closing v bar op decision)).instrument =
            op.instrument := (sameTerms_afterLeg env (env.closing v bar op decision)).instrument
        have hrest := ih hleft (by rw [hinstrument]; exact hmin)
        rw [hinstrument] at hrest
        have hfirst : Taken (op.instrument.minSize - 1 / 10 ^ 12) op.position.size
            [env.closing v bar op decision]
            (env.afterLeg (env.closing v bar op decision)).position.size none := by
          refine ⟨?_, fun _ c hc => List.mem_singleton.1 hc ▸ hopen, fun hne => absurd rfl hne⟩
          rw [hsize, List.map_singleton, Closing.take, hopen]
          exact .part (hleast hopen) (.nil _)
        exact hfirst.trans hrest

theorem barFills_pos (h : 0 < op.position.size) (v : BarSlice) (bar : Bar) :
    (∀ c ∈ (env.barFills v bar op).1, 0 < c.size) ∧
      ((env.barFills v bar op).2.2 = none → 0 < (env.barFills v bar op).2.1.position.size) := by
  rw [← (size_seeBar v bar op).1] at h
  obtain ⟨hpos, hopen⟩ := exitFills_pos env h v bar (op.legs.length + 1)
  simp only [BookSetup.barFills]
  split_ifs with hstop
  · refine ⟨fun c hc => ?_, by simp⟩
    rcases List.mem_append.1 hc with hc | hc
    · exact hpos c hc
    · rw [List.mem_singleton.1 hc]
      exact hopen hstop.1
  · exact ⟨hpos, hopen⟩

theorem barFills_taken (h : 0 < op.position.size) (hmin : 2 / 10 ^ 12 < op.instrument.minSize)
    (v : BarSlice) (bar : Bar) :
    Taken (op.instrument.minSize - 1 / 10 ^ 12) op.position.size (env.barFills v bar op).1
      (env.barFills v bar op).2.1.position.size (env.barFills v bar op).2.2 := by
  have hinstrument := (sameTerms_seeBar v bar op).instrument
  have hsize := (size_seeBar v bar op).1
  rw [← hsize] at h
  rw [← hinstrument] at hmin
  have hloop := exitFills_taken env h hmin v bar (op.legs.length + 1)
  rw [hsize, hinstrument] at hloop
  simp only [BookSetup.barFills]
  split_ifs with hstop
  · rw [hstop.1] at hloop
    exact hloop.trans (taken_marketClosing env _ v bar .timeStop bar.close _ _)
  · exact hloop

end Fills

section Life

variable {env : BookSetup} {order : PendingEntry} {fill : EntryFill} {stage : Option BarSlice}
  {tr : Track}

theorem Lives.positive (h : Lives env order fill stage tr) :
    (∀ c ∈ tr.closings, 0 < c.2.size) ∧ (tr.closed = none → 0 < tr.op.position.size) := by
  apply h.invariant
    (P := fun tr => (∀ c ∈ tr.closings, 0 < c.2.size) ∧
      (tr.closed = none → 0 < tr.op.position.size))
  · intro v bar seq _ hfill
    exact ⟨by simp [Track.opened], fun _ => (env.sim.simulateEntry_ok _ _ _ _ _ _ hfill).1⟩
  · rintro tr e hopen ⟨hclosings, hsize⟩
    have hpos := hsize hopen
    have hclose : ∀ cs : List Closing, (∀ c ∈ cs, 0 < c.size) →
        ∀ c ∈ tr.close cs, 0 < c.2.size := by
      intro cs hcs c hc
      rcases Track.mem_close.1 hc with hc | ⟨c', hc', rfl⟩
      · exact hclosings c hc
      · exact hcs c' hc'
    rcases tr.step_cases env e with ⟨op, nights, hstep, -, -, hsame, -⟩ |
      ⟨v, bar, reason, -, hclosed, hstep⟩ | ⟨v, bar, -, hclosed, hstep⟩ |
      ⟨v, bar, reason, price, spacing, hstep⟩
    · rw [hstep]
      refine ⟨hclosings, fun _ => ?_⟩
      rw [hsame]
      exact hpos
    · rw [hstep]
      exact ⟨hclose _ (barFills_pos env hpos v bar).1, by simp⟩
    · obtain ⟨hfills, hleft⟩ := barFills_pos env hpos v bar
      rw [hstep]
      refine ⟨hclose _ hfills, fun _ => ?_⟩
      rw [(size_updateProtectiveStop env v _).1]
      exact hleft hclosed
    · rw [hstep]
      refine ⟨hclose _ fun c hc => ?_, by simp [Track.market]⟩
      rw [List.mem_singleton.1 hc]
      exact hpos

theorem Lives.taken (hmin : 2 / 10 ^ 12 < order.instrument.minSize)
    (h : Lives env order fill stage tr) :
    Taken (order.instrument.minSize - 1 / 10 ^ 12) fill.filledSize (tr.closings.map Prod.snd)
      tr.op.position.size tr.closed := by
  have hinv : tr.op.instrument = order.instrument ∧ (tr.closed = none → 0 < tr.op.position.size) ∧
      Taken (order.instrument.minSize - 1 / 10 ^ 12) fill.filledSize (tr.closings.map Prod.snd)
        tr.op.position.size tr.closed := by
    apply h.invariant (P := fun tr => tr.op.instrument = order.instrument ∧
      (tr.closed = none → 0 < tr.op.position.size) ∧
      Taken (order.instrument.minSize - 1 / 10 ^ 12) fill.filledSize (tr.closings.map Prod.snd)
        tr.op.position.size tr.closed)
    · intro v bar seq _ hfill
      exact ⟨rfl, fun _ => (env.sim.simulateEntry_ok _ _ _ _ _ _ hfill).1, .refl _ _⟩
    · rintro tr e hopen ⟨hinstrument, hsize, htaken⟩
      have hpos := hsize hopen
      rw [hopen] at htaken
      rw [← hinstrument] at hmin htaken ⊢
      refine ⟨(tr.sameTerms_step env e).instrument, ?_⟩
      rcases tr.step_cases env e with ⟨op, nights, hstep, -, -, hsame, -⟩ |
        ⟨v, bar, reason, -, hclosed, hstep⟩ | ⟨v, bar, -, hclosed, hstep⟩ |
        ⟨v, bar, reason, price, spacing, hstep⟩
      · rw [hstep]
        dsimp only
        rw [hsame, hopen]
        exact ⟨fun _ => hpos, htaken⟩
      · have hfills := barFills_taken env hpos hmin v bar
        rw [hclosed] at hfills
        rw [hstep]
        dsimp only
        rw [Track.closings_close]
        exact ⟨by simp, htaken.trans hfills⟩
      · have hfills := barFills_taken env hpos hmin v bar
        rw [hclosed] at hfills
        rw [hstep]
        dsimp only
        rw [Track.closings_close, (size_updateProtectiveStop env v _).1, hopen]
        exact ⟨fun _ => (barFills_pos env hpos v bar).2 hclosed, htaken.trans hfills⟩
      · rw [hstep]
        simp only [Track.market]
        rw [Track.closings_close]
        exact ⟨by simp, htaken.trans (taken_marketClosing env _ v bar _ price spacing tr.op)⟩
  exact hinv.2.2

variable (env) in
theorem Taken.rows {least size left : ℚ} {closed : Option ExitReason}
    (h : Taken least size (tr.closings.map Prod.snd) left closed) :
    (closed = none → ∀ leg ∈ tr.legs env, leg.final = false) ∧
      (closed ≠ none → ((tr.legs env).map ExitLeg.size).sum = size ∧ ∃ init last,
        tr.legs env = init ++ [last] ∧ last.final = true ∧ ∀ leg ∈ init, leg.final = false) ∧
      ∀ before leg after, tr.legs env = before ++ leg :: after → leg.final = false →
        least ≤ size - ((before.map ExitLeg.size).sum + leg.size) := by
  have htakes : (tr.closings.map Prod.snd).map Closing.take =
      (tr.legs env).map fun leg => (leg.size, leg.final) := by
    simp [Track.legs, Closing.take, Function.comp_def]
  have hdrains := h.drains
  rw [htakes] at hdrains
  have hmarked : ∀ leg ∈ tr.legs env, ∃ c ∈ tr.closings.map Prod.snd, c.final = leg.final := by
    intro leg hleg
    obtain ⟨c, hc, rfl⟩ := List.mem_map.1 hleg
    exact ⟨c.2, List.mem_map_of_mem hc, rfl⟩
  refine ⟨fun hopen leg hleg => ?_, fun hclosed => ?_, fun before leg after hrows hpart => ?_⟩
  · obtain ⟨c, hc, heq⟩ := hmarked leg hleg
    rw [← heq]
    exact h.open_ hopen c hc
  · rcases hdrains.last with hparts | ⟨hzero, init, x, hinit, hparts⟩
    · obtain ⟨c, hc, hfinal⟩ := h.closed hclosed
      have hmem : c.take ∈ (tr.legs env).map fun leg => (leg.size, leg.final) := by
        rw [← htakes]
        exact List.mem_map_of_mem hc
      have hpart := hparts c.take hmem
      simp [Closing.take, hfinal] at hpart
    · have hsum := hdrains.sum
      rw [hzero, add_zero, List.map_map] at hsum
      obtain ⟨rows, last, hrows, hbefore, hlast⟩ := List.map_eq_append_iff.1 hinit
      obtain ⟨leg, hleg, hx⟩ := List.map_eq_singleton_iff.1 hlast
      refine ⟨hsum.symm, rows, leg, hleg ▸ hrows, (Prod.mk.inj hx).2, fun other hother => ?_⟩
      exact hparts (other.size, other.final) (hbefore ▸ List.mem_map_of_mem hother)
  · have hsplit : (tr.legs env).map (fun leg => (leg.size, leg.final)) =
        (before.map fun leg => (leg.size, leg.final)) ++
          (leg.size, false) :: after.map fun leg => (leg.size, leg.final) := by
      rw [hrows, List.map_append, List.map_cons, hpart]
    have hle := hdrains.least_le hsplit
    rw [List.map_map] at hle
    exact hle

end Life

/-- A ladder plans positive sizes within the size that filled, and all of it when it closes
everything but for a trace; the closing fills of a position are parts and then one last fill,
add up to its entry size, and leave the minimum size but for a trace. -/
theorem sizes_conserved (env : BookSetup) (initial : ℚ) (events : List BookEvent) :
    (∀ (i : Instrument) (filledSize : ℚ) (prices allocations : List ℚ), 0 < filledSize →
      (allocations ≠ [] → allocations.length = prices.length) →
      (∀ leg ∈ planLegs i filledSize prices allocations, 0 < leg.size) ∧
        ((planLegs i filledSize prices allocations).map TakeProfitLeg.size).sum ≤ filledSize ∧
        (1 - 1 / 10 ^ 9 ≤ allocations.sum →
          ((planLegs i filledSize prices allocations).map TakeProfitLeg.size).sum = filledSize ∨
          filledSize - 1 / 10 ^ 12 ≤
              ((planLegs i filledSize prices allocations).map TakeProfitLeg.size).sum ∧
            (planLegs i filledSize prices allocations).length < prices.length)) ∧
      ∀ e ∈ (BookHistory.after env initial events).entries, ∀ s fill, e.managed = some s →
        e.fill = some fill → 2 / 10 ^ 12 < e.pending.instrument.minSize →
        let book := (BookHistory.after env initial events).book
        let rows := book.exitLegs.filter fun leg => leg.positionSeq = s
        ((∃ op ∈ book.open_, op.seq = s ∧ op.entrySize = fill.filledSize ∧
            ∀ leg ∈ rows, leg.final = false) ∨
          (∀ op ∈ book.open_, op.seq ≠ s) ∧ (rows.map ExitLeg.size).sum = fill.filledSize ∧
            ∃ init last, rows = init ++ [last] ∧ last.final = true ∧
              ∀ leg ∈ init, leg.final = false) ∧
          ∀ before leg after, rows = before ++ leg :: after → leg.final = false →
            e.pending.instrument.minSize - 1 / 10 ^ 12 ≤
              fill.filledSize - ((before.map ExitLeg.size).sum + leg.size) := by
  refine ⟨fun i filledSize prices allocations hfilled haligned =>
    planLegs_sizes prices allocations hfilled haligned, ?_⟩
  intro e he s fill hs hfill hmin book rows
  obtain ⟨fill', tr, hfill', hlives, hseq, hrows, hplace⟩ :=
    (BookHistory.refines env initial events).life he hs
  obtain rfl : fill = fill' := Option.some.inj (hfill.symm.trans hfill')
  obtain ⟨hopen, hclosed, hresidue⟩ := (hlives.taken hmin).rows env
  rw [hrows] at hopen hclosed hresidue
  refine ⟨?_, hresidue⟩
  rcases hplace with ⟨hnone, hmem⟩ | ⟨hsome, hgone⟩
  · obtain ⟨v, seq, hterms⟩ := hlives.terms
    exact .inl ⟨tr.op, hmem, hseq, hterms.entrySize, hopen hnone⟩
  · exact .inr ⟨hgone, hclosed hsome⟩

section Traces

open Frictionless BookSample

def tracedRun : List BookEvent :=
  [.queueEntry (longOrder 0 (2 - 5 / 10 ^ 13) 1 [3] [1 / 2] (by decide)), flatStep 0 2,
    flatStep 1 3]

theorem tracedRun_opened : (BookHistory.after book 100 tracedRun).entries.map
      (fun e => (e.managed, e.fill.map EntryFill.filledSize, e.pending.instrument.minSize)) =
      [(some 2, some (2 - 5 / 10 ^ 13), 1)] := by
  decide +kernel

theorem tracedRun_sizes : (BookHistory.after book 100 tracedRun).book.exitLegs.map
      (fun leg => (leg.positionSeq, leg.size, leg.final)) = [(2, 1, false)] := by
  decide +kernel

/-- A ladder that closes everything stops a trace short, and a part leaves less than the
minimum size. -/
theorem sizes_leave_traces :
    (([1, 1 / 10 ^ 9] : List ℚ).sum ≤ 1 + 1 / 10 ^ 9 ∧ 1 - 1 / 10 ^ 9 ≤
      ([1, 1 / 10 ^ 9] : List ℚ).sum ∧
      ((planLegs (instrumentOf "EURUSD") (1 + 1 / (2 * 10 ^ 12)) [3, 4] [1, 1 / 10 ^ 9]).map
        TakeProfitLeg.size).sum ≠ 1 + 1 / (2 * 10 ^ 12)) ∧
      ∃ e ∈ (BookHistory.after book 100 tracedRun).entries, ∃ fill, e.fill = some fill ∧
        ∃ leg ∈ (BookHistory.after book 100 tracedRun).book.exitLegs,
          e.managed = some leg.positionSeq ∧ leg.final = false ∧
            fill.filledSize - leg.size < e.pending.instrument.minSize := by
  refine ⟨by decide +kernel, ?_⟩
  obtain ⟨e, hentries, he⟩ := List.map_eq_singleton_iff.1 tracedRun_opened
  obtain ⟨leg, hlegs, hleg⟩ := List.map_eq_singleton_iff.1 tracedRun_sizes
  simp only [Prod.mk.injEq] at he hleg
  obtain ⟨fill, hfill, hsize⟩ := Option.map_eq_some_iff.1 he.2.1
  refine ⟨e, by simp [hentries], fill, hfill, leg, by simp [hlegs], ?_, hleg.2.2, ?_⟩
  · rw [he.1, hleg.1]
  · rw [hsize, hleg.2.1, he.2.2]
    norm_num

/-- The general statement on the traced run: its one part leaves the minimum size but for
a trace. -/
theorem sizes_conserved_traced :
    ((planLegs (instrumentOf "EURUSD") 3 [3, 4] [1 / 2, 1 / 2]).map TakeProfitLeg.size).sum ≤ 3 ∧
      ∃ leg ∈ (BookHistory.after book 100 tracedRun).book.exitLegs,
        1 - 1 / 10 ^ 12 ≤ 2 - 5 / 10 ^ 13 - leg.size := by
  obtain ⟨hplan, hrun⟩ := sizes_conserved book 100 tracedRun
  refine ⟨(hplan (instrumentOf "EURUSD") 3 [3, 4] [1 / 2, 1 / 2] (by norm_num) (by simp)).2.1, ?_⟩
  obtain ⟨e, hentries, he⟩ := List.map_eq_singleton_iff.1 tracedRun_opened
  obtain ⟨leg, hlegs, hleg⟩ := List.map_eq_singleton_iff.1 tracedRun_sizes
  simp only [Prod.mk.injEq] at he hleg
  obtain ⟨fill, hfill, hsize⟩ := Option.map_eq_some_iff.1 he.2.1
  obtain ⟨-, hresidue⟩ := hrun e (by simp [hentries]) 2 fill he.1 hfill
    (by rw [he.2.2]; norm_num)
  have hrows : (BookHistory.after book 100 tracedRun).book.exitLegs.filter
      (fun leg => leg.positionSeq = 2) = [] ++ leg :: [] := by
    rw [hlegs, List.nil_append, List.filter_singleton, hleg.1]
    rfl
  have hle := hresidue [] leg [] hrows hleg.2.2
  rw [he.2.2, hsize, List.map_nil, List.sum_nil, zero_add] at hle
  exact ⟨leg, by simp [hlegs], hle⟩

end Traces

end Fiboki
