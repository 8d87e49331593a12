import RemoteTerm.Compression.Mcotxt.Encoder
import RemoteTerm.Compression.Mcotxt.PlanTokens

/-!
# Round trip of the MCOtxt stream

Every path through the planner's graph is a sequence of tokens that the decoder can
follow: `Follows` relates a state of the planner to a state of the decoder, and every arc
keeps them related (`Follows.arc`). The plan is one of these paths, so the stream is read
back exactly and `encodeStream` never falls back on the raw one.
-/

namespace RemoteTerm.Compression.Mcotxt

open Foundation List ModelSet

/-! ## Planner and decoder -/

section Paths

variable {ms : ModelSet} {langA : Nat} {langB : Option Nat} {plan : CasePlan} {cps : Text}

variable (ms plan cps) in
/-- The decoder stands where the planner does, with the text so far put out. -/
structure Follows (s : PlanState) (st : DecoderState) : Prop where
  current : st.current = s.lang
  table : (ms.byId s.lang).isSome
  context : st.context = s.context
  shift : st.shift = false
  caps : st.caps = plan.capsAt s.pos
  out : st.out = cps.take s.pos

theorem not_mem_toggles (hPlan : plan.Meets (ms.caseNeeds cps)) {pos : Nat} {cp : Char}
    (hCp : cps[pos]? = some cp) (hUncased : ∀ m ∈ ms.models, ¬ m.Cased cp) :
    pos ∉ plan.toggles := by
  intro hMem
  obtain ⟨u, hNeed⟩ := hPlan.toggles pos hMem
  obtain ⟨cp', hCp', hUpper⟩ := mem_caseNeeds.mp hNeed
  obtain ⟨m, hm, s, hNorm, hKeys, -⟩ := wantsUpper_some hUpper
  obtain rfl : cp = cp' := Option.some.inj (hCp.symm.trans hCp')
  exact hUncased m hm ⟨s, hNorm, hKeys⟩

theorem not_cased_of_unsupported {cp : Char} (h : ms.supported cp = false) :
    ∀ m ∈ ms.models, ¬ m.Cased cp := by
  intro m hm ⟨s, hNorm, _⟩
  refine Bool.eq_false_iff.mp h ?_
  have hAny : (ms.models.any fun m => (m.normalize cp).isSome) = true :=
    any_eq_true.mpr ⟨m, hm, by rw [hNorm]; rfl⟩
  simp [supported, hAny]

/-- The caps lock does not change over characters without case. -/
theorem capsAt_add (hPlan : plan.Meets (ms.caseNeeds cps)) {pos k : Nat}
    (hUncased : ∀ cp ∈ (cps.drop pos).take k, ms.supported cp = false)
    (hk : k ≤ (cps.drop pos).length) : plan.capsAt (pos + k) = plan.capsAt pos := by
  induction k with
  | zero => rfl
  | succ k ih =>
    have hLt : k < (cps.drop pos).length := hk
    have hSub : (cps.drop pos).take k ⊆ (cps.drop pos).take (k + 1) :=
      take_subset_take_left _ (Nat.le_succ k)
    have hMem : (cps.drop pos)[k] ∈ (cps.drop pos).take (k + 1) := by
      rw [mem_take_iff_getElem]
      exact ⟨k, by omega, rfl⟩
    have hCp : cps[pos + k]? = some ((cps.drop pos)[k]) := by
      rw [← getElem?_drop, getElem?_eq_getElem hLt]
    have hToggle := not_mem_toggles hPlan hCp (not_cased_of_unsupported (hUncased _ hMem))
    rw [← Nat.add_assoc, CasePlan.capsAt_succ_of_not_mem hToggle]
    exact ih (fun cp hcp => hUncased cp (hSub hcp)) hLt.le

/-- A character that some table has, other than punctuation, has a symbol arc. -/
theorem symbols_ne_nil (hPlan : plan.Meets (ms.caseNeeds cps)) {pos lang : Nat}
    {context : Context} {cp : Char} (hCp : cps[pos]? = some cp)
    (hSupported : ms.supported cp = true) (hPunct : cp ∉ punctuation) :
    (targets ms langA langB lang context).filterMap (symbolArc ms plan pos cp) ≠ [] := by
  -- a shifted character is taken from a table in which it has case
  have hTable : ∃ m ∈ ms.models, ∃ s, m.normalize cp = some s ∧
      (pos ∈ plan.shifts → s ∈ m.lowerToUpper.keys) := by
    by_cases hShift : pos ∈ plan.shifts
    · obtain ⟨u, hNeed⟩ := hPlan.shifts pos hShift
      obtain ⟨cp', hCp', hUpper⟩ := mem_caseNeeds.mp hNeed
      obtain ⟨m, hm, s, hNorm, hKeys, -⟩ := wantsUpper_some hUpper
      obtain rfl : cp = cp' := Option.some.inj (hCp.symm.trans hCp')
      exact ⟨m, hm, s, hNorm, fun _ => hKeys⟩
    · simp only [supported, hPunct, false_or, any_eq_true, decide_eq_true_eq]
        at hSupported
      obtain ⟨m, hm, hNorm⟩ := hSupported
      obtain ⟨s, hNorm⟩ := Option.isSome_iff_exists.mp hNorm
      exact ⟨m, hm, s, hNorm, fun h => absurd h hShift⟩
  obtain ⟨m, hm, s, hNorm, hKeys⟩ := hTable
  obtain ⟨t, ht, hLang⟩ := @exists_target ms langA langB lang context m hm
  have hOption : (symbolOption m cp t.context (pos ∈ plan.shifts)).isSome :=
    symbolOption_isSome hNorm (fun h => hKeys (of_decide_eq_true h))
  obtain ⟨option, hOption⟩ := Option.isSome_iff_exists.mp hOption
  have hArc : (symbolArc ms plan pos cp t).isSome := by
    rw [symbolArc, hLang, byId_globalId hm]
    dsimp only
    rw [hOption]
    rfl
  obtain ⟨arc, hArc⟩ := Option.isSome_iff_exists.mp hArc
  exact ne_nil_of_mem (mem_filterMap.mpr ⟨t, ht, hArc⟩)

variable (ms langA langB plan cps) in
/-- The decoder can read the tokens and then stands where the arc leads. -/
def Takes (st : DecoderState) (arc : Arc PlanState Token PlanCost) : Prop :=
  (∀ t ∈ arc.tokens, t.Fits) ∧
    ∃ st', applyTokens ms langA langB st arc.tokens = .ok st' ∧ Follows ms plan cps arc.next st'

section Arcs

variable {s : PlanState} {st : DecoderState} {cp : Char} {rest : Text}

theorem take_succ_of_drop (hDrop : cps.drop s.pos = cp :: rest) :
    cps[s.pos]? = some cp ∧ cps.take (s.pos + 1) = cps.take s.pos ++ [cp] := by
  have hGet : cps[s.pos]? = some cp := by
    rw [← Nat.add_zero s.pos, ← getElem?_drop, hDrop]
    rfl
  rw [take_add_one, hGet]
  exact ⟨rfl, rfl⟩

theorem Follows.noPendingShift (h : Follows ms plan cps s st) : st.noPendingShift = .ok () := by
  rw [DecoderState.noPendingShift, h.shift]
  rfl

theorem Follows.punct (hPlan : plan.Meets (ms.caseNeeds cps)) (hAgree : ms.CaseAgrees)
    (h : Follows ms plan cps s st) (hDrop : cps.drop s.pos = cp :: rest)
    (hPunct : cp ∈ punctuation) : Takes ms langA langB plan cps st
      (planArc [.punct (lastIndexOf punctuation cp)] 8 0 false
        ⟨s.pos + 1, s.lang, contextAfterPunctuation cp s.context⟩) := by
  obtain ⟨hCp, hTake⟩ := take_succ_of_drop hDrop
  obtain ⟨m, hTable⟩ := Option.isSome_iff_exists.mp h.table
  have hToggle := not_mem_toggles hPlan hCp (fun m hm => hAgree.punct m hm cp hPunct)
  have hGet : punctuation.getD (lastIndexOf punctuation cp) space = cp := by
    rw [getD_eq_getElem?_getD, getElem?_lastIndexOf hPunct]
    rfl
  refine ⟨?_, { st with
    out := st.out ++ [cp], context := contextAfterPunctuation cp st.context }, ?_, ?_⟩
  · intro t ht
    rw [mem_singleton.mp ht]
    exact lastIndexOf_lt hPunct
  · simp only [planArc, applyTokens, h.current, hTable, applyToken, h.noPendingShift, Except.map,
      Except.bind, hGet]
  · refine ⟨h.current, h.table, ?_, h.shift, ?_, ?_⟩
    · exact congrArg (contextAfterPunctuation cp) h.context
    · exact h.caps.trans (CasePlan.capsAt_succ_of_not_mem hToggle).symm
    · exact (congrArg (· ++ [cp]) h.out).trans hTake.symm

/-- The toggle and the shift in front of a symbol set the case that was planned. -/
theorem applyTokens_case {m : LanguageModel} {toggle shift : Bool}
    (hTable : ms.byId st.current = some m) (hShift : st.shift = false) :
    applyTokens ms langA langB st
        ((if toggle then [.toggleCase] else []) ++ (if shift then [.shift] else [])) =
      .ok { st with caps := st.caps ^^ toggle, shift := shift } := by
  obtain ⟨current, context, shift₀, caps, out⟩ := st
  obtain rfl : shift₀ = false := hShift
  cases toggle with
  | false =>
    cases shift with
    | false => simp [applyTokens]
    | true => simp [applyTokens, hTable, applyToken, Except.bind]
  | true =>
    cases shift with
    | false => simp [applyTokens, hTable, applyToken, DecoderState.noPendingShift, Except.bind,
      Except.map]
    | true => simp [applyTokens, hTable, applyToken, DecoderState.noPendingShift, Except.bind,
      Except.map]

theorem Follows.symbol (hPlan : plan.Meets (ms.caseNeeds cps)) (hWf : ms.WellFormed)
    (hAgree : ms.CaseAgrees) (h : Follows ms plan cps s st)
    (hDrop : cps.drop s.pos = cp :: rest) {t : Target}
    (ht : t ∈ targets ms langA langB s.lang s.context) {arc : Arc PlanState Token PlanCost}
    (hArc : symbolArc ms plan s.pos cp t = some arc) : Takes ms langA langB plan cps st arc := by
  obtain ⟨hCp, hTake⟩ := take_succ_of_drop hDrop
  unfold symbolArc at hArc
  split at hArc
  · cases hArc
  rename_i m hTable
  obtain ⟨option, hOption, rfl⟩ := Option.map_eq_some_iff.mp hArc
  obtain ⟨hNorm, hKeys, tok, hTokens, hFits, hApply⟩ :=
    @symbolOption_spec ms langA langB m cp _ _ _ hOption
  obtain ⟨hm, -⟩ := byId_mem hTable
  rw [← h.current, ← h.context] at ht
  obtain ⟨hLeadFits, hLead⟩ := target_lead (by rw [h.current]; exact h.table) h.shift ht
  -- the decoder at the target, with the case set
  let st₁ : DecoderState := { st with current := t.lang, context := t.context }
  let st₂ : DecoderState :=
    { st₁ with caps := plan.capsAt (s.pos + 1), shift := decide (s.pos ∈ plan.shifts) }
  have hCaseTokens : applyTokens ms langA langB st₁
      ((if s.pos ∈ plan.toggles then [.toggleCase] else []) ++
        (if s.pos ∈ plan.shifts then [.shift] else [])) = .ok st₂ := by
    have hSet := @applyTokens_case ms langA langB st₁ m (decide (s.pos ∈ plan.toggles))
      (decide (s.pos ∈ plan.shifts)) hTable h.shift
    simp only [decide_eq_true_eq] at hSet
    rw [hSet]
    simp only [st₂, st₁, CasePlan.capsAt, h.caps]
  have hEmit := @emit_eq ms m cp option.symbol hWf hAgree hm hNorm st₂
    (fun u hu => hPlan.upper s.pos u (mem_caseNeeds.mpr ⟨cp, hCp, hu⟩)) hKeys
  have hTok : applyTokens ms langA langB st₂ [tok] = .ok
      { st₂ with out := st.out ++ [cp], context := .symbol option.symbol, shift := false } := by
    simp only [applyTokens, st₂, st₁, hTable]
    rw [hApply _ rfl, hEmit]
    rfl
  have hAll : t.lead ++ ((if s.pos ∈ plan.toggles then [.toggleCase] else []) ++ option.tokens) =
      t.lead ++ (((if s.pos ∈ plan.toggles then [.toggleCase] else []) ++
        (if s.pos ∈ plan.shifts then [.shift] else [])) ++ [tok]) := by
    rw [hTokens, append_assoc]
    simp only [decide_eq_true_eq]
  refine ⟨?_, { st₂ with
    out := st.out ++ [cp], context := .symbol option.symbol, shift := false }, ?_, ?_⟩
  · intro tok' hMem
    simp only [planArc, hAll, mem_append, mem_singleton] at hMem
    rcases hMem with hMem | (hMem | hMem) | rfl
    · exact hLeadFits tok' hMem
    · rw [mem_ite_nil_right] at hMem
      rw [mem_singleton.mp hMem.2]
      trivial
    · rw [mem_ite_nil_right] at hMem
      rw [mem_singleton.mp hMem.2]
      trivial
    · exact hFits
  · simp only [planArc, hAll]
    rw [applyTokens_append, hLead]
    simp only [Except.bind]
    rw [applyTokens_append, hCaseTokens]
    exact hTok
  · refine ⟨rfl, Option.isSome_iff_exists.mpr ⟨m, hTable⟩, rfl, rfl, rfl, ?_⟩
    exact (congrArg (· ++ [cp]) h.out).trans hTake.symm

theorem utf8Run_spec (hNot : ms.supported cp = false) :
    ∃ k, 0 < k ∧ TakesRun ms (cp :: rest) [] 0 k ∧
      utf8Run ms cp rest = (Text.encodeUtf8 ((cp :: rest).take k), k) := by
  obtain ⟨k, hRun, hPos⟩ := @utf8RunFrom_spec ms (cp :: rest) [] 0 (Nat.zero_le _)
  have hk := hPos rfl cp rfl hNot
  refine ⟨k, hk, hRun, ?_⟩
  rw [utf8Run, hRun.eq]
  dsimp only
  rw [if_neg (by omega), Nat.zero_add, nil_append]

variable (hPlan : plan.Meets (ms.caseNeeds cps))

include hPlan

theorem Follows.utf8Run (h : Follows ms plan cps s st)
    (hDrop : cps.drop s.pos = cp :: rest) {k : Nat} (hk : 0 < k)
    (hRun : TakesRun ms (cp :: rest) [] 0 k) {bits : Nat} : Takes ms langA langB plan cps st
      (planArc [.utf8Run (Text.encodeUtf8 ((cp :: rest).take k))] bits 0 false
        ⟨s.pos + k, s.lang, .start⟩) := by
  obtain ⟨m, hTable⟩ := Option.isSome_iff_exists.mp h.table
  have hStrict : strictUtf8 (Text.encodeUtf8 ((cp :: rest).take k)) =
      .ok ((cp :: rest).take k) := by
    rw [strictUtf8, Text.decodeUtf8_encodeUtf8]
  refine ⟨?_, { st with out := st.out ++ (cp :: rest).take k, context := .start }, ?_, ?_⟩
  · intro t ht
    rw [mem_singleton.mp ht]
    refine ⟨?_, hRun.fits⟩
    obtain ⟨k, rfl⟩ := Nat.exists_eq_succ_of_ne_zero hk.ne'
    have hSize := String.length_utf8EncodeChar cp
    have hSizePos := Char.utf8Size_pos cp
    rw [take_succ_cons, Text.encodeUtf8_cons, length_append]
    omega
  · simp only [planArc, applyTokens, h.current, hTable, applyToken, h.noPendingShift, hStrict,
      Except.map, Except.bind]
  · refine ⟨h.current, h.table, rfl, h.shift, ?_, ?_⟩
    · refine h.caps.trans (capsAt_add hPlan ?_ ?_).symm
      · rw [hDrop]
        exact hRun.unsupported
      · rw [hDrop]
        exact hRun.le
    · dsimp only [planArc]
      rw [h.out, take_add, hDrop]

variable (hWf : ms.WellFormed) (hAgree : ms.CaseAgrees) (h : Follows ms plan cps s st)

include hWf hAgree h

/-- Every arc of the planner is one that the decoder can follow. -/
theorem Follows.arc {arc : Arc PlanState Token PlanCost}
    (hArc : arc ∈ candidates ms langA langB plan cps s) : Takes ms langA langB plan cps st arc := by
  unfold candidates at hArc
  split at hArc
  · cases hArc
  rename_i cp rest hDrop
  dsimp only at hArc
  split at hArc
  next hNone =>
    have hNot : ms.supported cp = false := by
      by_contra hSome
      rw [Bool.not_eq_false] at hSome
      exact symbols_ne_nil hPlan (take_succ_of_drop hDrop).1 hSome hNone.1 hNone.2
    obtain ⟨k, hk, hRun, hEq⟩ := @utf8Run_spec ms cp rest hNot
    rw [hEq] at hArc
    rw [mem_singleton.mp hArc]
    exact h.utf8Run hPlan hDrop hk hRun
  · rcases mem_append.mp hArc with hMem | hMem
    · rw [mem_ite_nil_right] at hMem
      rw [mem_singleton.mp hMem.2]
      exact h.punct hPlan hAgree hDrop hMem.1
    · obtain ⟨t, ht, hSymbol⟩ := mem_filterMap.mp hMem
      exact h.symbol hPlan hWf hAgree hDrop ht hSymbol

theorem Follows.path {tokens : List Token} {t : PlanState}
    (hPath : Path (candidates ms langA langB plan cps) s tokens t) :
    (∀ tok ∈ tokens, tok.Fits) ∧ ∃ st', applyTokens ms langA langB st tokens = .ok st' ∧
      Follows ms plan cps t st' := by
  induction hPath generalizing st with
  | nil => exact ⟨by simp, st, rfl, h⟩
  | cons arc hArc _ ih =>
    obtain ⟨hFits, st₁, hApply, hNext⟩ := h.arc hPlan hWf hAgree hArc
    obtain ⟨hFits', st₂, hApply', hEnd⟩ := ih hNext
    refine ⟨forall_mem_append.mpr ⟨hFits, hFits'⟩, st₂, ?_, hEnd⟩
    rw [applyTokens_append, hApply]
    exact hApply'

end Arcs

/-! ## Layers of the planner -/

theorem utf8Run_count (cp : Char) (rest : Text) :
    0 < (utf8Run ms cp rest).2 ∧ (utf8Run ms cp rest).2 ≤ rest.length + 1 := by
  obtain ⟨k, hRun, -⟩ := @utf8RunFrom_spec ms (cp :: rest) [] 0 (Nat.zero_le _)
  have hLe : k ≤ rest.length + 1 := hRun.le
  rw [utf8Run, hRun.eq]
  dsimp only
  split
  · exact ⟨Nat.one_pos, by omega⟩
  · omega

theorem candidates_pos {s : PlanState} {arc : Arc PlanState Token PlanCost}
    (h : arc ∈ candidates ms langA langB plan cps s) :
    s.pos < arc.next.pos ∧ arc.next.pos ≤ cps.length := by
  unfold candidates at h
  split at h
  · cases h
  rename_i cp rest hDrop
  have hLength : cps.length - s.pos = rest.length + 1 := by rw [← length_drop, hDrop, length_cons]
  dsimp only at h
  split at h
  · have hCount := @utf8Run_count ms cp rest
    rw [mem_singleton.mp h]
    dsimp only [planArc]
    omega
  · rcases mem_append.mp h with hMem | hMem
    · rw [mem_ite_nil_right] at hMem
      rw [mem_singleton.mp hMem.2]
      dsimp only [planArc]
      omega
    · obtain ⟨t, -, hArc⟩ := mem_filterMap.mp hMem
      unfold symbolArc at hArc
      split at hArc
      · cases hArc
      · obtain ⟨option, -, rfl⟩ := Option.map_eq_some_iff.mp hArc
        dsimp only [planArc]
        omega

theorem candidates_ne_nil {s : PlanState} (h : s.pos < cps.length) :
    candidates ms langA langB plan cps s ≠ [] := by
  unfold candidates
  split
  next hDrop =>
    rw [drop_eq_nil_iff] at hDrop
    omega
  · dsimp only
    split
    · exact cons_ne_nil _ _
    rename_i hSome
    intro hNil
    rw [append_eq_nil_iff] at hNil
    refine hSome ⟨fun hPunct => ?_, hNil.2⟩
    rw [if_pos hPunct] at hNil
    exact cons_ne_nil _ _ hNil.1

end Paths

/-! ## Whole streams -/

/-- The plan is a path of the planner's graph through the whole text, at the cost it reports. -/
theorem route_plan (ms : ModelSet) (langA : Nat) (langB : Option Nat) (cps : Text) :
    ∃ t : PlanState, t.pos = cps.length ∧
      Route (candidates ms langA langB (casePlan ms cps) cps) ⟨0, langA, .start⟩
        (plan ms langA langB cps).2 (plan ms langA langB cps).1 t := by
  have hBound : ∀ s : PlanState, s.pos < cps.length →
      candidates ms langA langB (casePlan ms cps) cps s ≠ [] ∧
        ∀ a ∈ candidates ms langA langB (casePlan ms cps) cps s, a.next.pos ≤ cps.length :=
    fun s hs => ⟨candidates_ne_nil hs, fun a ha => (candidates_pos ha).2⟩
  obtain ⟨t, pr, ht, hPrice, hRoute⟩ := @plan_route _ _ _ _ PlanState.pos _ ⟨0, langA, .start⟩
    (fun s a ha => (candidates_pos ha).1) _ _ _ _ _ hBound rfl
  refine ⟨t, ht, ?_⟩
  unfold plan
  dsimp only
  rw [hPrice]
  exact hRoute

variable {ms : ModelSet}

variable (ms) in
/-- Both languages of the pair have a table. -/
def ModelSet.Available (pair : Nat × Option Nat) : Prop :=
  (ms.byId pair.1).isSome ∧ ∀ b ∈ pair.2, (ms.byId b).isSome

instance (pair : Nat × Option Nat) : Decidable (ms.Available pair) :=
  inferInstanceAs (Decidable (_ ∧ _))

theorem lt_of_byId_isSome {id : Nat} (h : (ms.byId id).isSome) : id < 7 := by
  obtain ⟨m, hm⟩ := Option.isSome_iff_exists.mp h
  rw [← (byId_mem hm).2]
  exact m.globalId_lt

theorem decodeStream_plan (hWf : ms.WellFormed) (hAgree : ms.CaseAgrees)
    {pair : Nat × Option Nat} (hPair : ms.Available pair) (cps : Text) :
    decodeStream ms (plannedStream ms pair cps).1 (plannedStream ms pair cps).2 = .ok cps := by
  obtain ⟨t, hEnd, hRoute⟩ := route_plan ms pair.1 pair.2 cps
  have hStart : Follows ms (casePlan ms cps) cps ⟨0, pair.1, .start⟩
      ⟨pair.1, .start, false, false, []⟩ := ⟨rfl, hPair.1, rfl, rfl, rfl, rfl⟩
  obtain ⟨hFits, st, hApply, hFollows⟩ :=
    hStart.path (casePlan_meets cps) hWf hAgree hRoute.path
  have hOut : st.out = cps := by rw [hFollows.out, hEnd, take_length]
  rw [plannedStream, tokenStream, finishBits, decodeStream_packBits,
    decodeBits_writeHeader hPair.1 (lt_of_byId_isSome hPair.1)
      (fun b hb => ⟨hPair.2 b hb, lt_of_byId_isSome (hPair.2 b hb)⟩) hFits hApply hFollows.shift,
    hOut]

theorem foldl_betterPair {cps : Text} {pairs : List (Nat × Option Nat)} (hne : pairs ≠ []) :
    ∃ key, ∃ pair ∈ pairs,
      pairs.foldl (betterPair ms cps) none = some (key, pair, (plan ms pair.1 pair.2 cps).2) := by
  cases pairs with
  | nil => exact absurd rfl hne
  | cons first rest =>
    refine foldlRecOn (motive := fun best => ∃ key, ∃ pair ∈ first :: rest,
      best = some (key, pair, (plan ms pair.1 pair.2 cps).2)) rest _
        ⟨_, first, mem_cons_self, rfl⟩ ?_
    rintro _ ⟨key, kept, hKept, rfl⟩ pair hPair
    unfold betterPair
    dsimp only
    split
    · exact ⟨_, pair, mem_cons_of_mem _ hPair, rfl⟩
    · exact ⟨key, kept, hKept, rfl⟩

/-- The encoder hands over the plan of one of its pairs, or the raw stream if that is
smaller; its check of the plan never fails. -/
theorem encodeStream_eq (hWf : ms.WellFormed) (hAgree : ms.CaseAgrees) {isAlpha : Char → Bool}
    {languages : Option (Nat × Option Nat)} {searchAllPairs : Bool} {text : Text}
    (hne : pairs ms isAlpha languages searchAllPairs (normalizeText text) ≠ [])
    (hPairs : ∀ pair ∈ pairs ms isAlpha languages searchAllPairs (normalizeText text),
      ms.Available pair) :
    ∃ pair ∈ pairs ms isAlpha languages searchAllPairs (normalizeText text),
      encodeStream ms isAlpha languages searchAllPairs text =
        .ok (smallerOf (rawUtf8Stream (normalizeText text) ms.generation)
          (plannedStream ms pair (normalizeText text))) := by
  obtain ⟨key, pair, hPair, hBest⟩ := @foldl_betterPair ms (normalizeText text) _ hne
  have hRead := decodeStream_plan hWf hAgree (hPairs pair hPair) (normalizeText text)
  refine ⟨pair, hPair, ?_⟩
  unfold plannedStream at hRead
  unfold encodeStream smallerOf plannedStream
  dsimp only
  rw [hBest]
  dsimp only
  split
  · rfl
  · rw [hRead]
    dsimp only
    rw [if_neg (not_not.mpr rfl)]

theorem length_writeBytes (data : Bytes) : (writeBytes data).length = 8 * data.length := by
  simp [writeBytes, length_flatMap, length_bitsOf, Nat.mul_comm]

theorem decodeStream_rawUtf8Stream (ms : ModelSet) (text : Text) :
    decodeStream ms (rawUtf8Stream text ms.generation).1 (rawUtf8Stream text ms.generation).2 =
      .ok text := by
  have hLength := length_writeBytes (Text.encodeUtf8 text)
  rw [rawUtf8Stream, finishBits, decodeStream_packBits]
  unfold decodeBits rawUtf8Bits
  rw [append_assoc, append_assoc, append_assoc, append_assoc,
    readHeaderField_writeHeaderField (by decide)]
  simp only [bind, Except.bind]
  rw [if_neg (by simp), readHeaderField_writeHeaderField ms.generation_le]
  dsimp only
  rw [read_bitsOf (by decide)]
  dsimp only
  rw [read_bitsOf (by decide)]
  dsimp only
  rw [if_pos rfl, if_pos rfl, decodeRaw, read_bitsOf (by decide)]
  simp only [bind, Except.bind]
  rw [if_neg (by simp), hLength, if_neg (by simp), Nat.mul_div_cancel_left _ (by decide),
    ← append_nil (writeBytes _), readBytes_writeBytes]
  dsimp only
  rw [strictUtf8, Text.decodeUtf8_encodeUtf8]

/-- For any text and any available pair, the header and the plan are decoded to the text,
and the encoder hands that stream over, or the raw one when it is smaller: its check
neither falls back nor fails. -/
theorem stream_round_trip (hWf : ms.WellFormed) (hAgree : ms.CaseAgrees) {langA : Nat}
    {langB : Option Nat} (hPair : ms.Available (langA, langB)) (isAlpha : Char → Bool)
    (searchAllPairs : Bool) (text : Text) : decodeStream ms (plannedStream ms (langA, langB) text).1
        (plannedStream ms (langA, langB) text).2 = .ok text ∧
      encodeStream ms isAlpha (some (langA, langB)) searchAllPairs text =
        .ok (smallerOf (rawUtf8Stream (normalizeText text) ms.generation)
          (plannedStream ms (langA, langB) (normalizeText text))) := by
  refine ⟨decodeStream_plan hWf hAgree hPair text, ?_⟩
  obtain ⟨pair, hMem, hEq⟩ := @encodeStream_eq ms hWf hAgree isAlpha (some (langA, langB))
    searchAllPairs text (cons_ne_nil _ _)
    (fun pair hMem => by rw [mem_singleton.mp hMem]; exact hPair)
  rw [hEq, mem_singleton.mp hMem]

/-! ## Small tables -/

/-- A table of two symbols without predictions, the first of which has an uppercase. -/
def twoSymbols (globalId : Nat) (lower other upper : Char) (hId : globalId < 7)
    (hne : lower ≠ other) : LanguageModel where
  globalId := globalId
  primary := [lower, other]
  extension := []
  startTop4 := []
  punctStartTop4 := []
  top4 := ⟨[(lower, []), (other, [])], by simpa using hne⟩
  upperToLower := ⟨[(upper, lower)], by simp⟩
  globalId_lt := hId
  primary_le := by simp
  extension_le := by simp
  startTop4_le := by simp
  punctStartTop4_le := by simp
  top4_le := by
    intro c row h
    rw [Table.get?_eq_some] at h
    simp only [mem_cons, Prod.mk.injEq, not_mem_nil, or_false] at h
    rcases h with ⟨-, rfl⟩ | ⟨-, rfl⟩
    · exact Nat.zero_le 4
    · exact Nat.zero_le 4
  top4_keys := by simp [Table.keys]
  lower_mem := by
    intro u l h
    rw [Table.get?_eq_some, mem_singleton, Prod.mk.injEq] at h
    rw [h.2]
    exact mem_cons_self

theorem twoSymbols_wellFormed {globalId : Nat} {lower other upper : Char} (hId : globalId < 7)
    (hne : lower ≠ other) : (twoSymbols globalId lower other upper hId hne).WellFormed where
  unique := by simpa [twoSymbols] using hne
  injective u u' l h h' := by
    simp only [twoSymbols, Table.get?_eq_some, mem_singleton, Prod.mk.injEq] at h h'
    rw [h.1, h'.1]

/-- The uppercase letter of the first table is a symbol of the second one, where it is
the lowercase of another letter. -/
def crossedTables : ModelSet where
  generation := 0
  models := [twoSymbols 0 'a' 'x' 'b' (by decide) (by decide),
    twoSymbols 1 'b' 'y' 'q' (by decide) (by decide)]
  generation_le := by decide
  ids_nodup := by decide

/-- Every table by itself is well formed, but the plan shifts the letter for the first
table and writes it with the second. -/
theorem crossed_tables_change_letter : ¬ ∀ ms :
    ModelSet, ms.WellFormed → ∀ (langA : Nat) (langB : Option Nat),
      ms.Available (langA, langB) → some langA ≠ langB → ∀ text : Text, normalizeText text = text →
        decodeStream ms (plannedStream ms (langA, langB) text).1
          (plannedStream ms (langA, langB) text).2 = .ok text := by
  intro hAll
  have hWf : crossedTables.WellFormed :=
    forall_mem_cons.mpr ⟨twoSymbols_wellFormed _ _,
      forall_mem_singleton.mpr (twoSymbols_wellFormed _ _)⟩
  have hRead : decodeStream crossedTables (plannedStream crossedTables (1, none) ['b']).1
      (plannedStream crossedTables (1, none) ['b']).2 = .ok ['q'] := by decide
  have hText := hAll crossedTables hWf 1 none (by decide) (by decide) ['b'] (by decide)
  rw [hRead] at hText
  exact absurd hText (by decide)

def plainTables : ModelSet where
  generation := 0
  models := [twoSymbols 0 'a' 'x' 'A' (by decide) (by decide)]
  generation_le := by decide
  ids_nodup := by decide

theorem plainTables_wellFormed : plainTables.WellFormed := by
  intro m hm
  rw [mem_singleton.mp hm]
  exact twoSymbols_wellFormed _ _

theorem plainTables_caseAgrees : plainTables.CaseAgrees where
  agree m hm m' hm' cp _ _ := by
    rw [mem_singleton.mp hm, mem_singleton.mp hm']
  punct m hm cp hcp hCased := by
    obtain ⟨s, hNorm, -⟩ := hCased
    have hNone : punctuation.all fun cp =>
        ((twoSymbols 0 'a' 'x' 'A' (by decide) (by decide)).normalize cp).isNone := by decide
    rw [mem_singleton.mp hm] at hNorm
    have := all_eq_true.mp hNone cp hcp
    rw [hNorm] at this
    cases this

theorem stream_round_trip_plain :
    decodeStream plainTables (plannedStream plainTables (0, none) ['A', 'x', ' ', 'é']).1
        (plannedStream plainTables (0, none) ['A', 'x', ' ', 'é']).2 =
      .ok ['A', 'x', ' ', 'é'] :=
  (stream_round_trip plainTables_wellFormed plainTables_caseAgrees (by decide) (fun _ => true) false
    ['A', 'x', ' ', 'é']).1

end RemoteTerm.Compression.Mcotxt
