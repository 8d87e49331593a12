import RemoteTerm.Compression.Mcotxt.PlanTokens
import Mathlib.Algebra.Order.Monoid.Prod

/-!
# The case plan is cheapest

A plan may toggle and shift wherever it likes. The search knows, for either state of the caps
lock, the least that leads there; by induction on the positions that have case no plan has paid
less (`search_le`).
-/

namespace RemoteTerm.Compression.Mcotxt

open Foundation List CasePlan Option

/-! ## Costs -/

/-- So many toggles and shifts. -/
def changeCost (toggles shifts : Nat) : CaseCost :=
  toLex (9 * toggles + 5 * shifts, toLex (toggles, shifts))

theorem changeCost_add (t s t' s' : Nat) :
    changeCost t s + changeCost t' s' = changeCost (t + t') (s + s') := by
  unfold changeCost
  show toLex (9 * t + 5 * s + (9 * t' + 5 * s'), toLex (t + t', s + s')) = _
  rw [Nat.mul_add, Nat.mul_add, Nat.add_add_add_comm]

theorem changeCost_mono {t s t' s' : Nat} (ht : t ≤ t') (hs : s ≤ s') :
    changeCost t s ≤ changeCost t' s' := by
  unfold changeCost
  rw [Prod.Lex.toLex_le_toLex]
  rcases Nat.lt_or_ge (9 * t + 5 * s) (9 * t' + 5 * s') with hLess | hSame
  · exact .inl hLess
  · obtain rfl : t = t' := by omega
    obtain rfl : s = s' := by omega
    exact .inr ⟨rfl, le_refl _⟩

theorem caseCost_eq (toggled shifted : Bool) :
    caseCost toggled shifted = changeCost toggled.toNat shifted.toNat := by
  cases toggled <;> cases shifted <;> rfl

namespace CasePlan

variable {plan : CasePlan}

/-- Bits, toggles and shifts. -/
def cost (plan : CasePlan) : CaseCost := changeCost plan.toggles.length plan.shifts.length

/-- The case a plan gives to the symbol at a position. -/
def upperAt (plan : CasePlan) (pos : Nat) : Bool :=
  plan.capsAt (pos + 1) ^^ decide (pos ∈ plan.shifts)

/-- What a plan has cost up to a position. -/
def costBelow (plan : CasePlan) (q : Nat) : CaseCost :=
  changeCost (plan.toggles.countP (· < q)) (plan.shifts.countP (· < q))

theorem costBelow_le_cost (plan : CasePlan) (q : Nat) : plan.costBelow q ≤ plan.cost :=
  changeCost_mono countP_le_length countP_le_length

variable {a q : Nat}

theorem countP_lt_add (l : List Nat) (h : a ≤ q) :
    l.countP (· < q) = l.countP (· < a) + l.countP (fun p => a ≤ p ∧ p < q) := by
  induction l with
  | nil => rfl
  | cons p l ih =>
    simp only [countP_cons, ih, decide_eq_true_eq]
    split <;> split <;> split <;> omega

theorem costBelow_add (h : a ≤ q) {t s : Nat}
    (ht : t ≤ plan.toggles.countP (fun p => a ≤ p ∧ p < q))
    (hs : s ≤ plan.shifts.countP (fun p => a ≤ p ∧ p < q)) :
    plan.costBelow a + changeCost t s ≤ plan.costBelow q := by
  unfold costBelow
  rw [countP_lt_add plan.toggles h, countP_lt_add plan.shifts h, changeCost_add]
  exact changeCost_mono (Nat.add_le_add_left ht _) (Nat.add_le_add_left hs _)

theorem exists_toggle (h : a ≤ q) (hne : plan.capsAt q ≠ plan.capsAt a) :
    ∃ p ∈ plan.toggles, a ≤ p ∧ p < q := by
  induction q, h using Nat.le_induction with
  | base => exact absurd rfl hne
  | succ q hle ih =>
    by_cases hMem : q ∈ plan.toggles
    · exact ⟨q, hMem, hle, Nat.lt_succ_self q⟩
    · rw [capsAt_succ_of_not_mem hMem] at hne
      obtain ⟨p, hp, hFrom, hTo⟩ := ih hne
      exact ⟨p, hp, hFrom, Nat.lt_succ_of_lt hTo⟩

/-- The toggle that is missing to get from a state to that of the caps lock. -/
def drift (plan : CasePlan) (state : Bool) (q : Nat) : CaseCost :=
  changeCost (decide (state ≠ plan.capsAt q)).toNat 0

/-- To bring the lock into another state, the plan has to pay for it, and for its shifts on the way.
-/
theorem drift_le (h : a ≤ q) {state : Bool} {c : CaseCost}
    (hPaid : c + plan.drift state a ≤ plan.costBelow a)
    {n : Nat} (hn : n ≤ plan.shifts.countP (fun p => a ≤ p ∧ p < q)) :
    c + changeCost (decide (state ≠ plan.capsAt q)).toNat n ≤ plan.costBelow q := by
  obtain ⟨t, ht, hDrift⟩ : ∃ t ≤ plan.toggles.countP (fun p => a ≤ p ∧ p < q),
      (decide (state ≠ plan.capsAt q)).toNat ≤ (decide (state ≠ plan.capsAt a)).toNat + t := by
    by_cases hSame : plan.capsAt q = plan.capsAt a
    · exact ⟨0, Nat.zero_le _, by rw [hSame, Nat.add_zero]⟩
    · obtain ⟨p, hp, hBetween⟩ := exists_toggle h hSame
      refine ⟨1, countP_pos_iff.mpr ⟨p, hp, decide_eq_true hBetween⟩, ?_⟩
      exact (Bool.toNat_le _).trans (Nat.le_add_left 1 _)
  calc c + changeCost (decide (state ≠ plan.capsAt q)).toNat n
      ≤ c + (plan.drift state a + changeCost t n) := by
        refine add_le_add_right ?_ c
        rw [drift, changeCost_add]
        exact changeCost_mono hDrift (Nat.le_add_left n 0)
    _ = c + plan.drift state a + changeCost t n := (add_assoc _ _ _).symm
    _ ≤ plan.costBelow a + changeCost t n := add_le_add_left hPaid _
    _ ≤ plan.costBelow q := costBelow_add h ht hn

end CasePlan

/-! ## The search is a lower bound -/

variable {c : CaseCost}

theorem caseStep_le {previous : Bool → Option CaseCost} {s : Bool} (h : previous s = some c)
    (desired state : Bool) :
    ∃ c' d, caseStep previous desired state = some (c', d) ∧
      c' ≤ c + caseCost (decide (s ≠ state)) (decide (desired ≠ state)) := by
  unfold caseStep
  simp only [foldl_cons, foldl_nil]
  cases s with
  | false =>
    rw [h]
    cases hOn : previous true with
    | none => exact ⟨_, _, rfl, le_refl _⟩
    | some on =>
      dsimp only
      split
      next hLess => exact ⟨_, _, rfl, hLess.le⟩
      · exact ⟨_, _, rfl, le_refl _⟩
  | true =>
    cases hOff : previous false with
    | none =>
      rw [h]
      exact ⟨_, _, rfl, le_refl _⟩
    | some off =>
      rw [h]
      dsimp only
      split
      · exact ⟨_, _, rfl, le_refl _⟩
      next hNot => exact ⟨_, _, rfl, not_lt.mp hNot⟩

variable {needs : List (Nat × Bool)}

/-- Up to any position a plan has paid what the search has found for one of the states of the caps
lock, and one more toggle if the lock is in the other one. -/
theorem search_le {plan : CasePlan} (hSorted : needs.Pairwise (·.1 < ·.1))
    (hPlan : ∀ pos upper, (pos, upper) ∈ needs → plan.upperAt pos = upper) {q : Nat}
    (hq : ∀ need ∈ needs, need.1 < q) :
    ∃ state c, (caseSearch needs).costs state = some c ∧
      c + plan.drift state q ≤ plan.costBelow q := by
  induction needs using List.reverseRecOn generalizing q with
  | nil =>
    refine ⟨false, changeCost 0 0, rfl, drift_le (Nat.zero_le q) ?_ (Nat.zero_le _)⟩
    show changeCost 0 0 + changeCost 0 0 ≤ changeCost _ _
    rw [changeCost_add]
    exact changeCost_mono (Nat.zero_le _) (Nat.zero_le _)
  | append_singleton needs need ih =>
    obtain ⟨pos, desired⟩ := need
    obtain ⟨hBefore, -, hLast⟩ := pairwise_append.mp hSorted
    obtain ⟨s, c, hCost, hPaid⟩ := ih hBefore (fun p u hMem => hPlan p u (mem_append_left _ hMem))
      (fun need hNeed => hLast need hNeed _ mem_cons_self)
    have hCase := hPlan pos desired (mem_append_right _ mem_cons_self)
    unfold upperAt at hCase
    obtain ⟨c', d, hStep, hLe⟩ := caseStep_le hCost desired (plan.capsAt (pos + 1))
    refine ⟨plan.capsAt (pos + 1), c', ?_, ?_⟩
    · rw [caseSearch_concat, CaseSearch.step]
      dsimp only
      rw [hStep]
      rfl
    · refine drift_le (hq (pos, desired) (mem_append_right _ mem_cons_self)) ?_
        (Nat.zero_le _)
      -- the plan has shifted here exactly when its lock is not in the state the letter needs
      have hShift : (decide (desired ≠ plan.capsAt (pos + 1))).toNat ≤
          plan.shifts.countP (fun p => pos ≤ p ∧ p < pos + 1) := by
        by_cases hMem : pos ∈ plan.shifts
        · refine (Bool.toNat_le _).trans (countP_pos_iff.mpr ⟨pos, hMem, ?_⟩)
          exact decide_eq_true ⟨Nat.le_refl pos, Nat.lt_succ_self pos⟩
        · rw [decide_eq_false hMem, Bool.xor_false] at hCase
          rw [hCase, decide_eq_false (fun h => h rfl)]
          exact Nat.zero_le _
      have hWay := drift_le (Nat.le_succ pos) hPaid hShift
      have hHere : plan.drift (plan.capsAt (pos + 1)) (pos + 1) = 0 := by
        unfold drift
        rw [decide_eq_false (fun h => h rfl)]
        rfl
      rw [hHere, add_zero]
      exact (caseCost_eq _ _ ▸ hLe).trans hWay

/-! ## The plan that is read back -/

theorem length_mark (b : Bool) (pos : Nat) (l : List Nat) :
    (if b then pos :: l else l).length = l.length + b.toNat := by
  cases b <;> rfl

variable {state : Bool}

/-- The plan that is read back costs what the search has found. -/
theorem cost_caseTrace (h : (caseSearch needs).costs state = some c) :
    (caseTrace (caseSearch needs).backtrack state).cost = c := by
  induction needs using List.reverseRecOn generalizing state c with
  | nil =>
    cases state with
    | true => cases h
    | false => exact some.inj h
  | append_singleton needs need ih =>
    rw [caseSearch_concat] at h ⊢
    unfold CaseSearch.step at h ⊢
    obtain ⟨⟨cost, d⟩, hStep, rfl⟩ := map_eq_some_iff.mp h
    obtain ⟨⟨before, hPrevious, rfl⟩, -, -⟩ := caseStep_spec hStep
    rw [caseTrace, hStep]
    dsimp only [map_some]
    rw [cost, length_mark, length_mark, ← changeCost_add, caseCost_eq, ← ih hPrevious,
      cost]

theorem finalState_le (h : (caseSearch needs).costs state = some c) :
    ∃ least, (caseSearch needs).costs (caseSearch needs).finalState = some least ∧ least ≤ c := by
  obtain ⟨off, hOff⟩ := isSome_iff_exists.mp (caseSearch_off needs)
  unfold CaseSearch.finalState
  cases hOn : (caseSearch needs).costs true with
  | none =>
    cases state with
    | false => exact ⟨c, h, le_refl c⟩
    | true => rw [hOn] at h; cases h
  | some on =>
    rw [hOff]
    dsimp only
    split
    next hLess =>
      refine ⟨off, hOff, ?_⟩
      cases state with
      | false => exact (some.inj (hOff.symm.trans h)).le
      | true => exact hLess.le.trans (some.inj (hOn.symm.trans h)).le
    next hNot =>
      refine ⟨on, hOn, ?_⟩
      cases state with
      | false => exact (not_lt.mp hNot).trans (some.inj (hOff.symm.trans h)).le
      | true => exact (some.inj (hOn.symm.trans h)).le

theorem caseTrace_sublist (backtrack : List (Nat × (Bool → Option CaseDecision))) (state : Bool) :
    (caseTrace backtrack state).toggles.Sublist (backtrack.map Prod.fst) ∧
      (caseTrace backtrack state).shifts.Sublist (backtrack.map Prod.fst) := by
  induction backtrack generalizing state with
  | nil => exact ⟨.slnil, .slnil⟩
  | cons entry rest ih =>
    obtain ⟨pos, decisions⟩ := entry
    rw [caseTrace]
    cases decisions state with
    | none => exact ⟨nil_sublist _, nil_sublist _⟩
    | some d =>
      obtain ⟨hToggles, hShifts⟩ := ih d.previous
      have hMark : ∀ (b : Bool) (l : List Nat), l.Sublist (rest.map Prod.fst) →
          (if b then pos :: l else l).Sublist (pos :: rest.map Prod.fst) := by
        intro b l hl
        cases b with
        | false => exact hl.cons pos
        | true => exact hl.cons_cons pos
      exact ⟨hMark _ _ hToggles, hMark _ _ hShifts⟩

theorem backtrack_positions (needs : List (Nat × Bool)) :
    (caseSearch needs).backtrack.map Prod.fst = (needs.map Prod.fst).reverse := by
  induction needs using List.reverseRecOn with
  | nil => rfl
  | append_singleton needs need ih =>
    rw [caseSearch_concat, CaseSearch.step, map_cons, ih, map_append, reverse_append]
    rfl

/-! ## Replaying a plan -/

/-- What stands in front of the symbol at a position. -/
def CasePlan.caseTokens (plan : CasePlan) (pos : Nat) : List Token :=
  (if pos ∈ plan.toggles then [.toggleCase] else []) ++ (if pos ∈ plan.shifts then [.shift] else [])

section Replay

variable (ms : ModelSet) (langA : Nat) (langB : Option Nat)

/-- The decoder in front of the symbol at a position. A symbol ends the shift before it. -/
def CasePlan.replay (plan : CasePlan) : Nat → Except MCOtxtError DecoderState
  | 0 => applyTokens ms langA langB ⟨langA, .start, false, false, []⟩ (plan.caseTokens 0)
  | pos + 1 => (plan.replay pos).bind fun st =>
    applyTokens ms langA langB { st with shift := false } (plan.caseTokens (pos + 1))

/-- With any declared pair the decoder puts out each symbol that has case in the one it needs. -/
def CasePlan.Reproduces (plan : CasePlan) (needs : List (Nat × Bool)) : Prop :=
  ∀ langA langB, (ms.byId langA).isSome → ∀ pos upper, (pos, upper) ∈ needs →
    ∃ st, plan.replay ms langA langB pos = .ok st ∧ (st.caps != st.shift) = upper

variable {ms langA langB}

theorem applyTokens_caseTokens {st : DecoderState} (hTable : (ms.byId st.current).isSome)
    (hShift : st.shift = false) (plan : CasePlan) (pos : Nat) :
    applyTokens ms langA langB st (plan.caseTokens pos) =
      .ok { st with
        caps := st.caps ^^ decide (pos ∈ plan.toggles), shift := decide (pos ∈ plan.shifts) } := by
  obtain ⟨m, hm⟩ := isSome_iff_exists.mp hTable
  obtain ⟨current, context, shift, caps, out⟩ := st
  obtain rfl : shift = false := hShift
  unfold caseTokens
  by_cases hToggle : pos ∈ plan.toggles <;> by_cases hOne : pos ∈ plan.shifts <;>
    simp [hToggle, hOne, applyTokens, hm, applyToken, DecoderState.noPendingShift, Except.bind,
      Except.map]

theorem replay_eq (hTable : (ms.byId langA).isSome) (plan : CasePlan) (pos : Nat) :
    plan.replay ms langA langB pos =
      .ok ⟨langA, .start, decide (pos ∈ plan.shifts), plan.capsAt (pos + 1), []⟩ := by
  induction pos with
  | zero =>
    rw [replay, applyTokens_caseTokens hTable rfl]
    rfl
  | succ pos ih =>
    rw [replay, ih, Except.bind, applyTokens_caseTokens hTable rfl]
    rfl

theorem reproduces_iff (plan : CasePlan) (cps : Text) : plan.Reproduces ms (ms.caseNeeds cps) ↔
      ∀ pos upper, (pos, upper) ∈ ms.caseNeeds cps → plan.upperAt pos = upper := by
  constructor
  · intro h pos upper hNeed
    -- a character with case is in some table, which can be declared
    obtain ⟨cp, -, hUpper⟩ := ModelSet.mem_caseNeeds.mp hNeed
    obtain ⟨m, hm, -⟩ := ModelSet.wantsUpper_some hUpper
    have hTable : (ms.byId m.globalId).isSome :=
      isSome_of_eq_some (ModelSet.byId_globalId hm)
    obtain ⟨st, hReplay, hCase⟩ := h m.globalId none hTable pos upper hNeed
    rw [replay_eq hTable] at hReplay
    cases hReplay
    exact hCase
  · intro h langA langB hTable pos upper hNeed
    exact ⟨_, replay_eq hTable plan pos, h pos upper hNeed⟩

end Replay

/-- **The case plan is cheapest** among those that give every letter its case. -/
theorem casePlan_cheapest (ms : ModelSet) (cps : Text) :
    (casePlan ms cps).Reproduces ms (ms.caseNeeds cps) ∧
      (casePlan ms cps).toggles.Nodup ∧ (casePlan ms cps).shifts.Nodup ∧
      ∀ other :
      CasePlan, other.Reproduces ms (ms.caseNeeds cps) → (casePlan ms cps).cost ≤ other.cost := by
  have hSorted := @ModelSet.caseNeeds_sorted ms cps
  have hNodup : ((caseSearch (ms.caseNeeds cps)).backtrack.map Prod.fst).Nodup := by
    rw [backtrack_positions, nodup_reverse]
    exact (pairwise_map.mpr hSorted).imp Nat.ne_of_lt
  obtain ⟨hToggles, hShifts⟩ := caseTrace_sublist (caseSearch (ms.caseNeeds cps)).backtrack
    (caseSearch (ms.caseNeeds cps)).finalState
  refine ⟨(reproduces_iff _ cps).mpr (ModelSet.casePlan_meets cps).upper, hNodup.sublist hToggles,
    hNodup.sublist hShifts, ?_⟩
  intro other hOther
  have hBelow : ∀ need ∈ ms.caseNeeds cps, need.1 < cps.length := by
    intro ⟨pos, upper⟩ hNeed
    obtain ⟨cp, hCp, -⟩ := ModelSet.mem_caseNeeds.mp hNeed
    exact (List.getElem?_eq_some_iff.mp hCp).1
  obtain ⟨state, c, hCost, hPaid⟩ := search_le hSorted ((reproduces_iff other cps).mp hOther) hBelow
  obtain ⟨least, hLeast, hLe⟩ := finalState_le hCost
  calc (casePlan ms cps).cost = least := cost_caseTrace hLeast
    _ ≤ c := hLe
    _ ≤ c + other.drift state cps.length :=
      le_add_of_nonneg_right (changeCost_mono (Nat.zero_le _) (Nat.zero_le _))
    _ ≤ other.costBelow cps.length := hPaid
    _ ≤ other.cost := other.costBelow_le_cost _

end RemoteTerm.Compression.Mcotxt
