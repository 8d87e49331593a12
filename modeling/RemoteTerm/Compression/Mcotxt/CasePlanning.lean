import RemoteTerm.Compression.Mcotxt.Planner

/-!
# The case plan gives every letter its case

The decoder keeps a caps lock; a toggle before a position flips it for good, a shift flips
it for one symbol. `CasePlan.capsAt` is the caps lock in front of a position. The search keeps,
for either state of the caps lock, a decision that leads there.
-/

namespace RemoteTerm.Compression.Mcotxt

open Foundation List Option

namespace CasePlan

variable (plan : CasePlan)

/-- The caps lock in front of a position. -/
def capsAt : Nat → Bool
  | 0 => false
  | pos + 1 => capsAt pos ^^ decide (pos ∈ plan.toggles)

variable {plan}

theorem capsAt_succ_of_not_mem {pos : Nat} (h : pos ∉ plan.toggles) :
    plan.capsAt (pos + 1) = plan.capsAt pos := by
  rw [capsAt, decide_eq_false h, Bool.xor_false]

theorem capsAt_congr {plan' : CasePlan} {pos : Nat}
    (h : ∀ p < pos, p ∈ plan.toggles ↔ p ∈ plan'.toggles) : plan.capsAt pos = plan'.capsAt pos := by
  induction pos with
  | zero => rfl
  | succ pos ih => rw [capsAt, capsAt, ih (fun p hp => h p (by omega)),
    decide_eq_decide.mpr (h pos (by omega))]

theorem capsAt_of_le {pos q : Nat} (hle : pos ≤ q) (h : ∀ p ∈ plan.toggles, p < pos) :
    plan.capsAt q = plan.capsAt pos := by
  obtain ⟨k, rfl⟩ := Nat.exists_eq_add_of_le hle
  induction k with
  | zero => rfl
  | succ k ih =>
    rw [← Nat.add_assoc, capsAt_succ_of_not_mem, ih (Nat.le_add_right pos k)]
    intro hMem
    have hLt := h _ hMem
    omega

variable (plan) in
/-- The plan gives each position the case it needs, and does nothing elsewhere. -/
structure Meets (needs : List (Nat × Bool)) : Prop where
  upper : ∀ pos u, (pos, u) ∈ needs → (plan.capsAt (pos + 1) ^^ decide (pos ∈ plan.shifts)) = u
  toggles : ∀ pos ∈ plan.toggles, ∃ u, (pos, u) ∈ needs
  shifts : ∀ pos ∈ plan.shifts, ∃ u, (pos, u) ∈ needs

end CasePlan

/-! ## The search -/

/-- A decision comes from a state that was reached, toggles when the state changes and
shifts when the state is not the case that is needed. -/
theorem caseStep_spec {previous : Bool → Option CaseCost} {desired state : Bool} {cost : CaseCost}
    {d : CaseDecision} (h : caseStep previous desired state = some (cost, d)) :
    (∃ before, previous d.previous = some before ∧ cost = before + caseCost d.toggled d.shifted) ∧
      d.toggled = decide (d.previous ≠ state) ∧ d.shifted = decide (desired ≠ state) := by
  unfold caseStep at h
  simp only [foldl_cons, foldl_nil] at h
  cases hOff : previous false with
  | none =>
    cases hOn : previous true with
    | none => simp [hOff, hOn] at h
    | some on =>
      simp only [hOff, hOn, some.injEq, Prod.mk.injEq] at h
      rw [← h.2]
      exact ⟨⟨on, hOn, h.1.symm⟩, rfl, rfl⟩
  | some off =>
    cases hOn : previous true with
    | none =>
      simp only [hOff, hOn, some.injEq, Prod.mk.injEq] at h
      rw [← h.2]
      exact ⟨⟨off, hOff, h.1.symm⟩, rfl, rfl⟩
    | some on =>
      simp only [hOff, hOn] at h
      split at h
      · simp only [some.injEq, Prod.mk.injEq] at h
        rw [← h.2]
        exact ⟨⟨on, hOn, h.1.symm⟩, rfl, rfl⟩
      · simp only [some.injEq, Prod.mk.injEq] at h
        rw [← h.2]
        exact ⟨⟨off, hOff, h.1.symm⟩, rfl, rfl⟩

theorem caseStep_isSome {previous : Bool → Option CaseCost} (h : (previous false).isSome)
    (desired state : Bool) : (caseStep previous desired state).isSome := by
  obtain ⟨off, hOff⟩ := isSome_iff_exists.mp h
  unfold caseStep
  simp only [foldl_cons, foldl_nil, hOff]
  cases previous true with
  | none => rfl
  | some on =>
    dsimp only
    split
    · rfl
    · rfl

/-- The search over some needs. -/
def caseSearch (needs : List (Nat × Bool)) : CaseSearch :=
  needs.foldl CaseSearch.step CaseSearch.init

theorem caseSearch_concat (needs : List (Nat × Bool)) (need : Nat × Bool) :
    caseSearch (needs ++ [need]) = (caseSearch needs).step need := by
  simp [caseSearch, foldl_append]

theorem caseSearch_off (needs : List (Nat × Bool)) : ((caseSearch needs).costs false).isSome := by
  induction needs using List.reverseRecOn with
  | nil => rfl
  | append_singleton needs need ih =>
    rw [caseSearch_concat, CaseSearch.step]
    rw [isSome_map]
    exact caseStep_isSome ih need.2 false

theorem finalState_reached (needs : List (Nat × Bool)) :
    ((caseSearch needs).costs (caseSearch needs).finalState).isSome := by
  have hOff := caseSearch_off needs
  obtain ⟨off, hSome⟩ := isSome_iff_exists.mp hOff
  unfold CaseSearch.finalState
  rw [hSome]
  cases hOn : (caseSearch needs).costs true with
  | none => exact hOff
  | some on =>
    dsimp only
    split
    · exact hOff
    · rw [hOn]
      rfl

/-- A position behind all others is marked as told, and the others stay as they were. -/
theorem mark_spec (b desired : Bool) {pos : Nat} {l : List Nat} {needs : List (Nat × Bool)}
    (hLess : ∀ need ∈ needs, need.1 < pos) (hMarks : ∀ p ∈ l, ∃ u, (p, u) ∈ needs) :
    decide (pos ∈ if b then pos :: l else l) = b ∧
    (∀ p < pos, (p ∈ if b then pos :: l else l) ↔ p ∈ l) ∧
      ∀ p ∈ if b then pos :: l else l, ∃ u, (p, u) ∈ needs ++ [(pos, desired)] := by
  have hOld : ∀ p ∈ l, ∃ u, (p, u) ∈ needs ++ [(pos, desired)] :=
    fun p hp => (hMarks p hp).imp fun u => mem_append_left _
  cases b with
  | false =>
    refine ⟨decide_eq_false fun h => ?_, fun _ _ => Iff.rfl, hOld⟩
    obtain ⟨u, hu⟩ := hMarks pos h
    exact Nat.lt_irrefl pos (hLess _ hu)
  | true =>
    refine ⟨decide_eq_true mem_cons_self, fun p hp =>
      ?_, forall_mem_cons.mpr ⟨⟨desired, by simp⟩, hOld⟩⟩
    exact mem_cons.trans (or_iff_right hp.ne)

/-- Reading the decisions back from a state that was reached gives a plan that meets all needs and
ends in that state. -/
theorem caseTrace_spec {needs : List (Nat × Bool)} (hSorted : needs.Pairwise (·.1 < ·.1))
    {state : Bool} (hState : ((caseSearch needs).costs state).isSome) :
    (caseTrace (caseSearch needs).backtrack state).Meets needs ∧ ∀ q, (∀ need ∈ needs, need.1 < q) →
        (caseTrace (caseSearch needs).backtrack state).capsAt q = state := by
  induction needs using List.reverseRecOn generalizing state with
  | nil =>
    cases state with
    | true => cases hState
    | false =>
      refine ⟨⟨nofun, nofun, nofun⟩, ?_⟩
      intro q _
      exact CasePlan.capsAt_of_le (Nat.zero_le q) nofun
  | append_singleton needs need ih =>
    obtain ⟨pos, desired⟩ := need
    obtain ⟨hBefore, -, hLast⟩ := pairwise_append.mp hSorted
    have hLess : ∀ need ∈ needs, need.1 < pos := fun need hNeed => hLast need hNeed _ mem_cons_self
    rw [caseSearch_concat] at hState ⊢
    unfold CaseSearch.step at hState ⊢
    rw [isSome_map] at hState
    obtain ⟨⟨cost, d⟩, hStep⟩ := isSome_iff_exists.mp hState
    obtain ⟨⟨c, hPrevious, -⟩, hToggled, hShifted⟩ := caseStep_spec hStep
    obtain ⟨hMeets, hEnd⟩ := ih hBefore (isSome_of_eq_some hPrevious)
    rw [caseTrace, hStep]
    dsimp only [map_some]
    generalize caseTrace (caseSearch needs).backtrack d.previous = before at hMeets hEnd
    obtain ⟨hToggleAt, hSameToggles, hToggles⟩ := mark_spec d.toggled desired hLess hMeets.toggles
    obtain ⟨hShiftAt, hSameShifts, hShifts⟩ := mark_spec d.shifted desired hLess hMeets.shifts
    generalize (if d.toggled then pos :: before.toggles else before.toggles) = toggles at *
    generalize (if d.shifted then pos :: before.shifts else before.shifts) = shifts at *
    have hSame : ∀ q ≤ pos, (⟨toggles, shifts⟩ : CasePlan).capsAt q = before.capsAt q :=
      fun q hq => CasePlan.capsAt_congr fun p hp => hSameToggles p (hp.trans_le hq)
    have hCaps : (⟨toggles, shifts⟩ : CasePlan).capsAt (pos + 1) = state := by
      rw [CasePlan.capsAt, hSame pos (Nat.le_refl _), hEnd pos hLess, hToggleAt, hToggled]
      cases d.previous <;> cases state <;> rfl
    refine ⟨⟨?_, hToggles, hShifts⟩, ?_⟩
    · intro p u hMem
      rcases mem_append.mp hMem with hMem | hMem
      · have hp : p < pos := hLess _ hMem
        rw [hSame (p + 1) hp, ← hMeets.upper p u hMem, decide_eq_decide.mpr (hSameShifts p hp)]
      · simp only [mem_singleton, Prod.mk.injEq] at hMem
        obtain ⟨rfl, rfl⟩ := hMem
        rw [hCaps, hShiftAt, hShifted]
        cases u <;> cases state <;> rfl
    · intro q hq
      have hPos : pos < q := hq (pos, desired) (by simp)
      rw [CasePlan.capsAt_of_le (show pos + 1 ≤ q by omega) ?_, hCaps]
      intro p hp
      obtain ⟨u, hu⟩ := hToggles p hp
      rcases mem_append.mp hu with hu | hu
      · exact Nat.lt_succ_of_lt (hLess _ hu)
      · cases mem_singleton.mp hu
        exact Nat.lt_succ_self pos

end RemoteTerm.Compression.Mcotxt
