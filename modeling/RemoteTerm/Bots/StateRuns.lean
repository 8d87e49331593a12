import RemoteTerm.Foundation.Run
import RemoteTerm.Foundation.Table
import RemoteTerm.Foundation.Text

/-!
# The state of a bot

Every run of a bot loads the whole stored state when it starts and, if it has changed it,
stores the whole of its own copy when it ends. Runs of one bot overlap: of two that load before
either has stored, the first one's change is lost (`overlapping_change_lost`).
-/

namespace RemoteTerm.Bots

open Foundation Function

section States

variable {V : Type} [DecidableEq V]

/-- A run of the bot. -/
inductive StateRun (V : Type) where
  | idle
  /-- The state it has loaded, and the one it works on. -/
  | running (before state : Table Text V)
  /-- Its handler has returned, failed or been stopped, and what it had changed was stored. -/
  | done (before after : Table Text V)

/-- The stored state and the runs. -/
structure StateDesk (V : Type) where
  store : Table Text V
  runs : Nat → StateRun V

def StateDesk.start (store : Table Text V) : StateDesk V := ⟨store, fun _ => .idle⟩

inductive StateAct (V : Type) where
  /-- `_make_context` -/
  | load (i : Nat)
  /-- The handler changes its copy. -/
  | assign (i : Nat) (state : Table Text V)
  /-- The end of `_run_bot`. -/
  | persist (i : Nat)

/-- Whether the two are different as JSON with sorted keys. -/
def differs (before after : Table Text V) : Bool :=
  (before.keys ++ after.keys).any fun k => before.get? k ≠ after.get? k

-- the values that JSON can hold
variable (isJson : V → Bool)

/-- `set_state`: a state that is no JSON is dropped. -/
def setState (store state : Table Text V) : Table Text V :=
  if state.values.all isJson then state else store

namespace StateDesk

/-- A run loads, changes its copy, or stores it and ends. -/
def step (desk : StateDesk V) : StateAct V → Option (StateDesk V)
  | .load i =>
    match desk.runs i with
    | .idle =>
      some { desk with runs := update desk.runs i (.running desk.store desk.store) }
    | _ => none
  | .assign i state =>
    match desk.runs i with
    | .running before _ =>
      some { desk with runs := update desk.runs i (.running before state) }
    | _ => none
  | .persist i =>
    match desk.runs i with
    | .running before state =>
      some
        { store := if differs before state then setState isJson desk.store state else desk.store
          runs := update desk.runs i (.done before state) }
    | _ => none

/-- A run that has something to store finds what it loaded, and JSON can hold what it stores. -/
def Undisturbed (desk : StateDesk V) : StateAct V → Prop
  | .persist i =>
    ∀ before state, desk.runs i = .running before state → differs before state = true →
      (∀ k, desk.store.get? k = before.get? k) ∧ state.values.all isJson = true
  | _ => True

/-- No two runs that are done have changed the same key. -/
def Apart (desk : StateDesk V) : Prop :=
  ∀ i j before after before' after', i ≠ j → desk.runs i = .done before after →
    desk.runs j = .done before' after' → ∀ k, before.get? k ≠ after.get? k →
      before'.get? k = after'.get? k

/-- The stored state has the change of every run that is done. -/
def Kept (desk : StateDesk V) : Prop :=
  ∀ i before after, desk.runs i = .done before after →
    ∀ k, before.get? k ≠ after.get? k → desk.store.get? k = after.get? k

end StateDesk

theorem differs_of_ne {before after : Table Text V} {k : Text} (h : before.get? k ≠ after.get? k) :
    differs before after = true := by
  refine List.any_eq_true.mpr ⟨k, ?_, decide_eq_true h⟩
  by_contra hMissing
  rw [List.mem_append, not_or] at hMissing
  exact h ((Table.get?_eq_none.mpr hMissing.1).trans (Table.get?_eq_none.mpr hMissing.2).symm)

/-! ## What a step does -/

variable {isJson} {desk next : StateDesk V}

omit [DecidableEq V] in
/-- A run that is not done before and after a change makes no difference to those that are. -/
theorem done_update_iff {runs : Nat → StateRun V} {i : Nat} {run : StateRun V}
    (hOld : ∀ b a, runs i ≠ .done b a)
    (hNew : ∀ b a, run ≠ .done b a) (j : Nat) (before after : Table Text V) :
    update runs i run j = .done before after ↔ runs j = .done before after := by
  by_cases hij : j = i
  · subst hij
    rw [update_self]
    exact ⟨fun h => absurd h (hNew _ _), fun h => absurd h (hOld _ _)⟩
  · rw [update_of_ne hij]

variable {act : StateAct V}

section

variable (h : desk.step isJson act = some next)

include h

/-- Either the stored state stays and no run is done by it, or one run is done. -/
theorem step_cases :
    (next.store = desk.store ∧ ∀ i before after, next.runs i = .done before after ↔
      desk.runs i = .done before after) ∨
    ∃ i before state, act = .persist i ∧ desk.runs i = .running before state ∧
      next.store = (if differs before state then setState isJson desk.store state else desk.store) ∧
      next.runs = update desk.runs i (.done before state) := by
  cases act with
  | load i | assign i state =>
    simp only [StateDesk.step] at h
    split at h
    next hRun =>
      cases h
      refine .inl ⟨rfl, done_update_iff ?_ ?_⟩
      · rw [hRun]
        rintro _ _ ⟨⟩
      · rintro _ _ ⟨⟩
    · cases h
  | persist i =>
    simp only [StateDesk.step] at h
    split at h
    next before state hRun =>
      cases h
      exact .inr ⟨i, before, state, rfl, hRun, rfl, rfl⟩
    · cases h

theorem done_of_step {i : Nat}
    {before after : Table Text V} (hDone : desk.runs i = .done before after) :
    next.runs i = .done before after := by
  obtain ⟨-, hSame⟩ | ⟨j, before', state, -, hRun, -, hRuns⟩ := step_cases h
  · exact (hSame i before after).mpr hDone
  have hij : i ≠ j := by
    rintro rfl
    rw [hRun] at hDone
    cases hDone
  rw [hRuns, update_of_ne hij]
  exact hDone

theorem apart_of_step (hApart : next.Apart) : desk.Apart := by
  intro i j before after before' after' hij hi hj
  exact hApart i j before after before' after' hij (done_of_step h hi) (done_of_step h hj)

/-- An undisturbed step keeps what all runs have stored. -/
theorem kept_of_step (hOpen : desk.Undisturbed isJson act)
    (hApart : next.Apart) (hKept : desk.Kept) : next.Kept := by
  intro i before after hDone k hk
  obtain ⟨hStore, hSame⟩ | ⟨j, before', state, rfl, hRun, hStore, hRuns⟩ := step_cases h
  · rw [hStore]
    exact hKept i before after ((hSame i before after).mp hDone) k hk
  have hLoaded := hOpen before' state hRun
  rw [hStore]
  by_cases hij : i = j
  · -- the run that ends has stored its own copy
    subst hij
    rw [hRuns, update_self] at hDone
    cases hDone
    have hDiffers := differs_of_ne hk
    rw [if_pos hDiffers, setState, if_pos (hLoaded hDiffers).2]
  · have hBefore : desk.runs i = .done before after := by
      rwa [hRuns, update_of_ne hij] at hDone
    have hOld := hKept i before after hBefore k hk
    split
    next hDiffers =>
      obtain ⟨hFound, hJson⟩ := hLoaded hDiffers
      -- its copy has under `k` what it loaded, which is what was stored
      have hCopy : before'.get? k = state.get? k :=
        hApart i j before after before' state hij hDone (by rw [hRuns, update_self]) k hk
      rw [setState, if_pos hJson, ← hCopy, ← hFound k, hOld]
    · exact hOld

end

/-- As long as nothing is stored between the load and the store of a run, the changes of all runs
are kept. -/
theorem state_changes_kept (store : Table Text V) (acts : List (StateAct V)) (desk : StateDesk V)
    (hRun : Run (fun desk act next => desk.step isJson act = some next ∧
      desk.Undisturbed isJson act)
      (.start store) acts desk) (hApart : desk.Apart) : desk.Kept := by
  have hAll : desk.Apart → desk.Kept := by
    refine hRun.invariant (I := fun desk => desk.Apart → desk.Kept) ?_ ?_
    · rintro desk act next hKept ⟨hStep, hOpen⟩ hApart
      exact kept_of_step hStep hOpen hApart (hKept (apart_of_step hStep hApart))
    · intro _ i before after hDone
      cases hDone
  exact hAll hApart

end States

/-! ## Two runs -/

def oneEntry (key : Text) : Table Text Nat := .set .empty key 1

def bothEntries : Table Text Nat := .set (oneEntry ['x']) ['y'] 1

theorem same_of_set {t t' : Table Text Nat} {a b : Text} (h : a ≠ b) (k : Text) :
    t.get? k = (t.set a 1).get? k ∨ t'.get? k = (t'.set b 1).get? k := by
  rw [Table.get?_set, Table.get?_set]
  by_cases ha : k = a
  · subst ha
    exact .inr (if_neg h).symm
  · exact .inl (if_neg ha).symm

theorem apart_of_two {desk : StateDesk Nat} {before after before' after' : Table Text Nat}
    (hFirst : desk.runs 0 = .done before after) (hSecond : desk.runs 1 = .done before' after')
    (hRest : ∀ i, desk.runs (i + 2) = .idle)
    (hKeys : ∀ k, before.get? k = after.get? k ∨ before'.get? k = after'.get? k) : desk.Apart := by
  intro i j b a b' a' hij hi hj k hk
  match i, j with
  | 0, 0 => exact absurd rfl hij
  | 1, 1 => exact absurd rfl hij
  | 0, 1 =>
    cases hFirst.symm.trans hi
    cases hSecond.symm.trans hj
    exact (hKeys k).resolve_left hk
  | 1, 0 =>
    cases hSecond.symm.trans hi
    cases hFirst.symm.trans hj
    exact (hKeys k).resolve_right hk
  | i + 2, _ => cases (hRest i).symm.trans hi
  | _, j + 2 => cases (hRest j).symm.trans hj

theorem state_changes_kept_in_turn : ∃ desk :
    StateDesk Nat, desk.runs 0 = .done .empty (oneEntry ['x']) ∧
      desk.runs 1 = .done (oneEntry ['x']) bothEntries ∧ desk.Kept := by
  refine ⟨_, ?_, ?_, @state_changes_kept _ _ (fun _ => true) .empty
    [.load 0, .assign 0 (oneEntry ['x']), .persist 0, .load 1, .assign 1 bothEntries, .persist 1] _
    (.cons ⟨rfl, trivial⟩ (.cons ⟨rfl, trivial⟩
      (.cons ⟨rfl, ?_⟩ (.cons ⟨rfl, trivial⟩ (.cons ⟨rfl, trivial⟩
      (.cons ⟨rfl, ?_⟩ (.nil _))))))) ?_⟩
  · rfl
  · rfl
  · rintro before state ⟨⟩ -
    exact ⟨fun k => rfl, rfl⟩
  · rintro before state ⟨⟩ -
    exact ⟨fun k => rfl, rfl⟩
  · exact apart_of_two rfl rfl (fun i => rfl)
      (@same_of_set .empty (oneEntry ['x']) ['x'] ['y'] (by decide))

/-- Both runs load the empty state, each sets a key of its own, and the second store drops the first
key. -/
theorem overlapping_change_lost : ∃ desk : StateDesk Nat,
      Run (fun desk act next => desk.step (fun _ => true) act = some next) (.start .empty)
        [.load 0, .load 1, .assign 0 (oneEntry ['x']), .assign 1 (oneEntry ['y']), .persist 0,
          .persist 1] desk ∧
      desk.runs 0 = .done .empty (oneEntry ['x']) ∧ desk.runs 1 = .done .empty (oneEntry ['y']) ∧
      desk.Apart ∧ desk.store.get? ['x'] = none := by
  refine ⟨_, .of_foldlM rfl, rfl, rfl, ?_, rfl⟩
  exact apart_of_two rfl rfl (fun i => rfl) (@same_of_set .empty .empty ['x'] ['y'] (by decide))

end RemoteTerm.Bots
