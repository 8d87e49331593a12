import RemoteTerm.Compression.Mcotxt.CasePlanning
import RemoteTerm.Compression.Mcotxt.StreamCorrect

/-!
# What the planner's pieces mean to the decoder

What a symbol, the lead of a target and a raw run do when the decoder reads them.

There is one caps lock for all tables, and punctuation ignores the case plan. So the tables must
agree on the case of a character, and give none to punctuation (`ModelSet.CaseAgrees`).
-/

namespace RemoteTerm.Compression.Mcotxt

open Foundation List Table

/-! ## Tables -/

namespace LanguageModel

variable (m : LanguageModel)

structure WellFormed : Prop where
  unique : (m.primary ++ m.extension).Nodup
  injective : ∀ u u' l, m.upperToLower.get? u = some l → m.upperToLower.get? u' = some l → u = u'

/-- The character has case in the table: it is a cased symbol or the uppercase of one. -/
def Cased (cp : Char) : Prop := ∃ s, m.normalize cp = some s ∧ s ∈ m.lowerToUpper.keys

variable {m}

theorem WellFormed.lowerToUpper_iff (h : m.WellFormed) {l u : Char} :
    m.lowerToUpper.get? l = some u ↔ m.upperToLower.get? u = some l := by
  have hNodup : ((m.upperToLower.entries.map fun e => (e.2, e.1)).map Prod.fst).Nodup := by
    rw [map_map]
    refine List.Nodup.map_on ?_ (List.Nodup.of_map Prod.fst m.upperToLower.nodup)
    intro ⟨u, l⟩ hu ⟨u', l'⟩ hu' hl
    dsimp only [Function.comp_apply] at hl
    subst hl
    rw [h.injective u u' l (get?_eq_some.mpr hu) (get?_eq_some.mpr hu')]
  rw [get?_eq_some, get?_eq_some, lowerToUpper, entries_ofList hNodup]
  simp

theorem predictions_le (m : LanguageModel) (context : Context) :
    (m.predictions context).length ≤ 4 := by
  cases context with
  | start => exact m.startTop4_le
  | afterPunct => exact m.punctStartTop4_le
  | symbol previous =>
    rw [predictions]
    cases hRow : m.top4.get? previous with
    | none => exact Nat.zero_le 4
    | some row => exact m.top4_le previous row hRow

variable {cp s : Char}

theorem normalize_mem (h : m.normalize cp = some s) : s ∈ m.top4.keys := by
  unfold normalize at h
  split at h
  next hMem =>
    cases h
    exact hMem
  · exact m.lower_mem cp s h

theorem upper_of_normalize (h : m.normalize cp = some s) (hne : s ≠ cp) :
    m.upperToLower.get? cp = some s := by
  unfold normalize at h
  split at h
  · cases h
    exact absurd rfl hne
  · exact h

end LanguageModel

namespace ModelSet

variable (ms : ModelSet)

def WellFormed : Prop := ∀ m ∈ ms.models, m.WellFormed

structure CaseAgrees : Prop where
  agree : ∀ m ∈ ms.models, ∀ m' ∈ ms.models, ∀ cp, m.Cased cp → m'.Cased cp →
    (m.normalize cp = some cp ↔ m'.normalize cp = some cp)
  punct : ∀ m ∈ ms.models, ∀ cp ∈ punctuation, ¬ m.Cased cp

variable {ms} {m : LanguageModel}

theorem byId_mem {id : Nat} (h : ms.byId id = some m) : m ∈ ms.models ∧ m.globalId = id := by
  refine ⟨mem_of_find?_eq_some h, ?_⟩
  simpa using find?_some h

theorem byId_globalId (h : m ∈ ms.models) : ms.byId m.globalId = some m := by
  have hSome : (ms.byId m.globalId).isSome := by
    rw [byId, find?_isSome]
    exact ⟨m, h, by simp⟩
  obtain ⟨m', hm'⟩ := Option.isSome_iff_exists.mp hSome
  obtain ⟨hMem, hId⟩ := byId_mem hm'
  rw [hm', inj_on_of_nodup_map ms.ids_nodup hMem h hId]

/-! ## Case needs -/

variable {cp : Char} {u : Bool}

theorem wantsUpper_some (h : ms.wantsUpper cp = some u) :
    ∃ m ∈ ms.models, ∃ s, m.normalize cp = some s ∧ s ∈ m.lowerToUpper.keys ∧
      u = decide (s ≠ cp) := by
  obtain ⟨m, hMem, hm⟩ := exists_of_findSome?_eq_some h
  split at hm
  next s hNorm =>
    split at hm
    next hKeys => exact ⟨m, hMem, s, hNorm, hKeys, (Option.some.inj hm).symm⟩
    · cases hm
  · cases hm

theorem wantsUpper_isSome (hm : m ∈ ms.models) (hCased : m.Cased cp) :
    (ms.wantsUpper cp).isSome := by
  obtain ⟨s, hNorm, hKeys⟩ := hCased
  rw [wantsUpper, findSome?_isSome_iff]
  refine ⟨m, hm, ?_⟩
  rw [hNorm]
  dsimp only
  rw [if_pos hKeys]
  rfl

/-- All tables that have the character with case need the same case. -/
theorem CaseAgrees.wantsUpper (h : ms.CaseAgrees) {s : Char} (hm : m ∈ ms.models)
    (hNorm : m.normalize cp = some s) (hKeys : s ∈ m.lowerToUpper.keys) :
    ms.wantsUpper cp = some (decide (s ≠ cp)) := by
  obtain ⟨u, hu⟩ := Option.isSome_iff_exists.mp (wantsUpper_isSome hm ⟨s, hNorm, hKeys⟩)
  obtain ⟨m', hm', s', hNorm', hKeys', rfl⟩ := wantsUpper_some hu
  have hAgree := h.agree m hm m' hm' cp ⟨s, hNorm, hKeys⟩ ⟨s', hNorm', hKeys'⟩
  rw [hNorm, hNorm', Option.some.injEq, Option.some.injEq] at hAgree
  rw [hu, decide_eq_decide.mpr (not_congr hAgree)]

theorem mem_caseNeeds {cps : Text} {pos : Nat} :
    (pos, u) ∈ ms.caseNeeds cps ↔ ∃ cp, cps[pos]? = some cp ∧ ms.wantsUpper cp = some u :=
  mem_filterMap_zipIdx ms.wantsUpper cps

theorem caseNeeds_sorted (cps : Text) : (ms.caseNeeds cps).Pairwise (·.1 < ·.1) :=
  pairwise_filterMap_zipIdx ms.wantsUpper cps

theorem casePlan_meets (cps : Text) : (casePlan ms cps).Meets (ms.caseNeeds cps) :=
  (caseTrace_spec (caseNeeds_sorted cps) (finalState_reached _)).1

end ModelSet

/-! ## One symbol -/

section Symbol

variable {ms : ModelSet} {langA : Nat} {langB : Option Nat} {m : LanguageModel} {cp s : Char}

/-- A table's symbol for a character comes out as that character when the case in force
is the one that the character needs. -/
theorem emit_eq (hWf : ms.WellFormed) (hAgree : ms.CaseAgrees) (hm : m ∈ ms.models)
    (hNorm : m.normalize cp = some s) {st : DecoderState}
    (hCase : ∀ u, ms.wantsUpper cp = some u → (st.caps ^^ st.shift) = u)
    (hShift : st.shift = true → s ∈ m.lowerToUpper.keys) :
    st.emit m s = .ok { st with out := st.out ++ [cp], context := .symbol s, shift := false } := by
  have hInverse := @(hWf m hm).lowerToUpper_iff
  unfold DecoderState.emit
  cases hUpper : m.lowerToUpper.get? s with
  | none =>
    have hKeys : s ∉ m.lowerToUpper.keys := get?_eq_none.mp hUpper
    have hSame : s = cp := by
      by_contra hne
      rw [hInverse.mpr (LanguageModel.upper_of_normalize hNorm hne)] at hUpper
      cases hUpper
    have hOff : st.shift = false := Bool.eq_false_iff.mpr fun h => hKeys (hShift h)
    simp [hOff, hSame]
  | some upper =>
    have hKeys : s ∈ m.lowerToUpper.keys := mem_keys.mpr ⟨upper, hUpper⟩
    have hUse := hCase _ (hAgree.wantsUpper hm hNorm hKeys)
    have hChar : (if st.caps ≠ st.shift then upper else s) = cp := by
      by_cases hSame : s = cp
      · rw [decide_eq_false (not_not.mpr hSame), bne_eq_false_iff_eq] at hUse
        rw [if_neg (not_not.mpr hUse), hSame]
      rw [decide_eq_true hSame, bne_iff_ne] at hUse
      have hLower := hInverse.mp hUpper
      have hCp := LanguageModel.upper_of_normalize hNorm hSame
      rw [if_pos hUse, (hWf m hm).injective upper cp s hLower hCp]
    simp only [reduceCtorEq, and_false, if_false]
    rw [hChar]

variable {context : Context} {shift : Bool}

/-- The token of an option stands for its symbol, in the context it was made for. -/
theorem symbolOption_spec {option : SymbolOption}
    (h : symbolOption m cp context shift = some option) :
    m.normalize cp = some option.symbol ∧ (shift = true → option.symbol ∈ m.lowerToUpper.keys) ∧
      ∃ t : Token, option.tokens = (if shift then [.shift] else []) ++ [t] ∧ t.Fits ∧
        ∀ st :
        DecoderState, st.context = context →
        applyToken ms langA langB m st t = st.emit m option.symbol := by
  unfold symbolOption at h
  split at h
  · cases h
  rename_i normalized hNorm
  split at h
  · cases h
  rename_i hAllowed
  have hKeys : shift = true → normalized ∈ m.lowerToUpper.keys := by
    intro hShift
    by_contra hNot
    exact hAllowed ⟨hShift, hNot⟩
  dsimp only at h
  split at h
  next hRow =>
    cases h
    have hIdx := idxOf_lt_length_of_mem hRow
    refine ⟨hNorm, hKeys, .top4 ((m.predictions context).idxOf normalized), rfl, ?_, ?_⟩
    · have hLe := m.predictions_le context
      exact hIdx.trans_le hLe
    · intro st hContext
      rw [applyToken, emitListed, hContext, getElem?_idxOf hRow]
  · split at h
    next hPrimary =>
      cases h
      refine ⟨hNorm, hKeys, .primary (lastIndexOf m.primary normalized), rfl, ?_, ?_⟩
      · exact (lastIndexOf_lt hPrimary).trans_le m.primary_le
      · intro st _
        rw [applyToken, emitListed, getElem?_lastIndexOf hPrimary]
    · split at h
      next hExtension =>
        cases h
        refine ⟨hNorm, hKeys, .extension (lastIndexOf m.extension normalized), rfl, ?_, ?_⟩
        · exact (lastIndexOf_lt hExtension).trans_le m.extension_le
        · intro st _
          rw [applyToken, emitListed, getElem?_lastIndexOf hExtension]
      · cases h

/-- A table that has the character can write it, unless it is to be shifted and has no
case there. -/
theorem symbolOption_isSome (hNorm : m.normalize cp = some s)
    (hShift : shift = true → s ∈ m.lowerToUpper.keys) :
    (symbolOption m cp context shift).isSome := by
  unfold symbolOption
  rw [hNorm]
  dsimp only
  rw [if_neg (fun h => h.2 (hShift h.1))]
  split
  · rfl
  split
  · rfl
  rename_i hPrimary
  rw [if_pos]
  · rfl
  · exact ((m.top4_keys s).mp (LanguageModel.normalize_mem hNorm)).resolve_left hPrimary

end Symbol

/-! ## Targets and raw runs -/

section Arcs

variable {ms : ModelSet} {langA : Nat} {langB : Option Nat}

theorem toggled_eq_some {lang other : Nat} (h : toggled langA langB lang = some other) :
    ∃ b, langB = some b ∧
      ((lang = langA ∧ other = b) ∨ (lang ≠ langA ∧ lang = b ∧ other = langA)) := by
  cases langB with
  | none => cases h
  | some b =>
    refine ⟨b, rfl, ?_⟩
    simp only [toggled] at h
    split at h
    next hA => exact .inl ⟨hA, (Option.some.inj h).symm⟩
    rename_i hA
    split at h
    next hB => exact .inr ⟨hA, hB, (Option.some.inj h).symm⟩
    · cases h

theorem exists_target (lang : Nat) (context : Context) {m : LanguageModel} (hm : m ∈ ms.models) :
    ∃ t ∈ targets ms langA langB lang context, t.lang = m.globalId := by
  unfold targets
  by_cases hSame : m.globalId = lang
  · exact ⟨_, mem_cons_self, hSame.symm⟩
  by_cases hOther : some m.globalId = toggled langA langB lang
  · refine ⟨⟨m.globalId, .start, [.toggleLanguage], 6, 1⟩, ?_, rfl⟩
    rw [← hOther]
    exact mem_cons_of_mem _ (mem_append_left _ mem_cons_self)
  · refine ⟨⟨m.globalId, .start, [.switchOther m.globalId], 17, 1⟩, ?_, rfl⟩
    refine mem_cons_of_mem _ (mem_append_right _ ?_)
    exact mem_map.mpr ⟨m, mem_filter.mpr ⟨hm, by simp [hSame, hOther]⟩, rfl⟩

/-- The lead of a target brings the decoder to the target's table. -/
theorem target_lead {t : Target} {st : DecoderState} (hTable : (ms.byId st.current).isSome)
    (hShift : st.shift = false) (ht : t ∈ targets ms langA langB st.current st.context) :
    (∀ tok ∈ t.lead, tok.Fits) ∧ applyTokens ms langA langB st t.lead =
        .ok { st with current := t.lang, context := t.context } := by
  obtain ⟨m, hTable⟩ := Option.isSome_iff_exists.mp hTable
  have hFree : st.noPendingShift = .ok () := by
    rw [DecoderState.noPendingShift, hShift]
    rfl
  unfold targets at ht
  simp only [mem_cons, mem_append, mem_map, Option.mem_toList, mem_filter] at ht
  rcases ht with rfl | ⟨other, hOther, rfl⟩ | ⟨m', ⟨hm', -⟩, rfl⟩
  · exact ⟨by simp, rfl⟩
  · refine ⟨by simp [Token.Fits], ?_⟩
    obtain ⟨b, rfl, hCase⟩ := toggled_eq_some hOther
    simp only [applyTokens, hTable, applyToken, hFree, Except.bind]
    rcases hCase with ⟨hA, rfl⟩ | ⟨hA, hB, rfl⟩
    · rw [if_pos hA]
    · rw [if_neg hA, if_pos hB]
  · have hLt := m'.globalId_lt
    refine ⟨?_, ?_⟩
    · intro tok hTok
      rw [mem_singleton.mp hTok]
      exact hLt.trans (by decide)
    · simp only [applyTokens, hTable, applyToken, hFree, Except.bind]
      rw [if_neg (by omega), ModelSet.byId_globalId hm', if_neg (by simp)]

variable (ms) in
/-- A run that starts behind `data` takes the first `k` characters, none of which has a
token, and stays within 32 bytes. -/
structure TakesRun (cps : Text) (data : Bytes) (count k : Nat) : Prop where
  le : k ≤ cps.length
  eq : utf8RunFrom ms cps data count = (data ++ Text.encodeUtf8 (cps.take k), count + k)
  fits : (data ++ Text.encodeUtf8 (cps.take k)).length ≤ 32
  unsupported : ∀ c ∈ cps.take k, ms.supported c = false

variable {cps : Text} {data : Bytes} {count : Nat}

theorem TakesRun.stop (hData : data.length ≤ 32)
    (h : utf8RunFrom ms cps data count = (data, count)) :
    TakesRun ms cps data count 0 where
  le := Nat.zero_le _
  eq := by simp [h, Text.encodeUtf8]
  fits := by simpa [Text.encodeUtf8] using hData
  unsupported := by simp

theorem TakesRun.take {c : Char} {rest : Text} {k : Nat} (hNot : ms.supported c = false)
    (h : TakesRun ms rest (data ++ String.utf8EncodeChar c) (count + 1) k)
    (hEq : utf8RunFrom ms (c :: rest) data count =
      (data ++ String.utf8EncodeChar c ++ Text.encodeUtf8 (rest.take k), count + 1 + k)) :
    TakesRun ms (c :: rest) data count (k + 1) := by
  have hTake : data ++ String.utf8EncodeChar c ++ Text.encodeUtf8 (rest.take k) =
      data ++ Text.encodeUtf8 ((c :: rest).take (k + 1)) := by
    rw [take_succ_cons, Text.encodeUtf8_cons, append_assoc]
  refine ⟨Nat.succ_le_succ h.le, ?_, ?_, ?_⟩
  · rw [hEq, hTake, Nat.add_assoc, Nat.add_comm 1 k]
  · rw [← hTake]
    exact h.fits
  · intro c' hc'
    rw [take_succ_cons, mem_cons] at hc'
    rcases hc' with rfl | hc'
    · exact hNot
    · exact h.unsupported c' hc'

/-- A run may stop at once only before a supported character or behind other bytes. -/
theorem utf8RunFrom_spec (hData : data.length ≤ 32) : ∃ k, TakesRun ms cps data count k ∧
      (data = [] → ∀ c ∈ cps.head?, ms.supported c = false → 0 < k) := by
  induction cps generalizing data count with
  | nil => exact ⟨0, .stop hData rfl, by simp⟩
  | cons c rest ih =>
    have hSize := String.length_utf8EncodeChar c
    have hFour := Char.utf8Size_le_four c
    by_cases hSupported : ms.supported c = true
    · refine ⟨0, .stop hData (by rw [utf8RunFrom, if_pos hSupported]), ?_⟩
      intro _ c' hc' hNot
      rw [← Option.some.inj hc', hSupported] at hNot
      cases hNot
    · have hNot : ms.supported c = false := Bool.eq_false_iff.mpr hSupported
      by_cases hFull : data ≠ [] ∧ data.length + (String.utf8EncodeChar c).length > 32
      · refine ⟨0, .stop hData ?_, fun hNil => absurd hNil hFull.1⟩
        rw [utf8RunFrom, if_neg hSupported]
        rw [if_pos hFull]
      · have hFit : (data ++ String.utf8EncodeChar c).length ≤ 32 := by
          rw [length_append]
          by_cases hNil : data = []
          · rw [hNil, length_nil]
            omega
          · have hLe : ¬ data.length + (String.utf8EncodeChar c).length > 32 :=
              fun h => hFull ⟨hNil, h⟩
            omega
        obtain ⟨k, hRun, -⟩ := @ih (data ++ String.utf8EncodeChar c) (count + 1) hFit
        by_cases hExact : (data ++ String.utf8EncodeChar c).length = 32
        · -- the run is full, whatever would follow
          refine ⟨1, ⟨by simp, ?_, ?_, by simpa using hNot⟩, fun _ _ _ _ => Nat.one_pos⟩
          · rw [utf8RunFrom, if_neg hSupported]
            rw [if_neg hFull, if_pos hExact]
            simp [Text.encodeUtf8]
          · simpa [Text.encodeUtf8] using hFit
        · refine ⟨k + 1, .take hNot hRun ?_, fun _ _ _ _ => Nat.succ_pos k⟩
          rw [utf8RunFrom, if_neg hSupported]
          rw [if_neg hFull, if_neg hExact, hRun.eq]

end Arcs

end RemoteTerm.Compression.Mcotxt
