import RemoteTerm.Compression.Mcotxt.RoundTrip
import Mathlib.Algebra.Order.Monoid.Prod

/-!
# The plan is cheapest

The planner prices an arc by numbers of its own, next to the tokens. They are what the tokens
cost, so the price of a plan is that of its tokens, and the library's result carries over.
-/

namespace RemoteTerm.Compression.Mcotxt

open Foundation List

/-! ## The cost of tokens -/

def Token.isSwitch : Token → Bool
  | .toggleLanguage | .switchOther _ => true
  | _ => false

def Token.isTop4 : Token → Bool
  | .top4 _ => true
  | _ => false

/-- So many bits, tokens, switches and predictions that hit. -/
def planCost (bits tokens switches hits : Nat) : PlanCost :=
  toLex (bits, toLex (tokens, toLex (switches, -(hits : ℤ))))

theorem planCost_add (b t s h b' t' s' h' : Nat) :
    planCost b t s h + planCost b' t' s' h' = planCost (b + b') (t + t') (s + s') (h + h') := by
  unfold planCost
  rw [Int.natCast_add, Int.neg_add]
  rfl

/-- The cost of tokens by the bits that are written for them. -/
def tokensCost (tokens : List Token) : PlanCost :=
  planCost (writeTokens tokens).length tokens.length (tokens.countP Token.isSwitch)
    (tokens.countP Token.isTop4)

theorem tokensCost_append (ts us : List Token) :
    tokensCost (ts ++ us) = tokensCost ts + tokensCost us := by
  unfold tokensCost writeTokens
  rw [planCost_add, flatMap_append, length_append, length_append, countP_append, countP_append]

theorem tokensCost_singleton {t : Token} {bits : Nat} (hBits : (writeToken t).length = bits)
    (hSwitch : t.isSwitch = false) : tokensCost [t] = planCost bits 1 0 t.isTop4.toNat := by
  unfold tokensCost writeTokens
  rw [flatMap_singleton, hBits, countP_singleton, countP_singleton, hSwitch]
  cases t.isTop4 <;> rfl

theorem length_writeToken_utf8Run (data : Bytes) :
    (writeToken (.utf8Run data)).length = 14 + 8 * data.length := by
  unfold writeToken
  rw [length_append, length_writeBytes]
  rfl

/-! ## The cost of arcs -/

section Arcs

variable {ms : ModelSet} {langA : Nat} {langB : Option Nat} {plan : CasePlan} {cps : Text}

theorem targets_cost {lang : Nat} {context : Context} {t : Target}
    (h : t ∈ targets ms langA langB lang context) :
    tokensCost t.lead = planCost t.bits t.lead.length t.switches 0 := by
  rcases mem_cons.mp h with rfl | h
  · rfl
  rcases mem_append.mp h with h | h
  · obtain ⟨other, -, rfl⟩ := mem_map.mp h
    rfl
  · obtain ⟨m, -, rfl⟩ := mem_map.mp h
    rfl

theorem tokensCost_shifted {t : Token} {bits : Nat} (hBits : (writeToken t).length = bits)
    (hSwitch : t.isSwitch = false) (shift : Bool) :
    tokensCost ((if shift then [.shift] else []) ++ [t]) =
      planCost (bits + if shift then 5 else 0)
        ((if shift then [Token.shift] else []) ++ [t]).length 0
        t.isTop4.toNat := by
  have hShift : tokensCost (if shift then [.shift] else []) =
      planCost (if shift then 5 else 0) (if shift then [Token.shift] else []).length 0 0 := by
    cases shift <;> rfl
  rw [tokensCost_append, hShift, tokensCost_singleton hBits hSwitch, planCost_add, length_append,
    Nat.add_comm bits, Nat.zero_add t.isTop4.toNat]
  rfl

theorem symbolOption_cost {m : LanguageModel} {cp : Char} {context : Context} {shift : Bool}
    {option : SymbolOption} (h : symbolOption m cp context shift = some option) :
    tokensCost option.tokens = planCost option.bits option.tokens.length 0 option.hit.toNat := by
  unfold symbolOption at h
  split at h
  · cases h
  split at h
  · cases h
  dsimp only at h
  split at h
  · cases h
    refine tokensCost_shifted ?_ rfl shift
    exact length_bitsOf _ _
  · split at h
    · cases h
      exact tokensCost_shifted rfl rfl shift
    split at h
    · cases h
      exact tokensCost_shifted rfl rfl shift
    · cases h

/-- An arc is priced at what the bit writer and a count of its tokens give. -/
theorem candidates_cost {s : PlanState} {arc : Arc PlanState Token PlanCost}
    (h : arc ∈ candidates ms langA langB plan cps s) : arc.cost = tokensCost arc.tokens := by
  unfold candidates at h
  split at h
  · cases h
  dsimp only at h
  split at h
  · rw [mem_singleton.mp h]
    exact (tokensCost_singleton (length_writeToken_utf8Run _) rfl).symm
  rcases mem_append.mp h with hMem | hMem
  · rw [mem_ite_nil_right] at hMem
    rw [mem_singleton.mp hMem.2]
    rfl
  · obtain ⟨t, ht, hArc⟩ := mem_filterMap.mp hMem
    unfold symbolArc at hArc
    split at hArc
    · cases hArc
    obtain ⟨option, hOption, rfl⟩ := Option.map_eq_some_iff.mp hArc
    have hToggle : tokensCost (if s.pos ∈ plan.toggles then [.toggleCase] else []) =
        planCost (if s.pos ∈ plan.toggles then 9 else 0)
          (if s.pos ∈ plan.toggles then [Token.toggleCase] else []).length 0 0 := by
      split <;> rfl
    dsimp only [planArc]
    rw [tokensCost_append, tokensCost_append, targets_cost ht, hToggle, symbolOption_cost hOption,
      planCost_add, planCost_add, length_append, length_append, Nat.add_comm (_ + _) t.bits,
      Nat.add_comm option.bits, Nat.zero_add, Nat.zero_add, Nat.zero_add]
    rfl

theorem route_cost {s t : PlanState} {tokens : List Token} {c : PlanCost}
    (h : Route (candidates ms langA langB plan cps) s tokens c t) : c = tokensCost tokens := by
  induction h with
  | nil s => rfl
  | cons a ha _ ih => rw [tokensCost_append, ih, candidates_cost ha, add_comm]

end Arcs

/-! ## Whole plans -/

theorem length_writeHeader {generation : Nat} (h : generation < 7) (langA : Nat)
    (langB : Option Nat) : (writeHeader generation langA langB).length = 12 := by
  unfold writeHeader writeHeaderField
  rw [if_pos h]
  simp only [length_append, length_bitsOf]
  rfl

/-- **The plan is cheapest**: no other way through the text costs less. -/
theorem plan_cheapest (ms : ModelSet) (langA : Nat) (langB : Option Nat) (cps : Text) :
    (∃ t : PlanState, t.pos = cps.length ∧
      Route (candidates ms langA langB (casePlan ms cps) cps) ⟨0, langA, .start⟩
        (plan ms langA langB cps).2 (plan ms langA langB cps).1 t) ∧
    (∀ tokens c t, Route (candidates ms langA langB (casePlan ms cps) cps)
      ⟨0, langA, .start⟩ tokens c t →
      t.pos = cps.length → (plan ms langA langB cps).1 ≤ c) ∧
    (plan ms langA langB cps).1 = tokensCost (plan ms langA langB cps).2 ∧
    (ms.generation < 7 → 12 + (ofLex (plan ms langA langB cps).1).1 =
      (plannedStream ms (langA, langB) cps).2) := by
  obtain ⟨t, ht, hRoute⟩ := route_plan ms langA langB cps
  have hCost := route_cost hRoute
  refine ⟨⟨t, ht, hRoute⟩, ?_, hCost, ?_⟩
  · intro tokens c t hOther hEnd
    have hStart : (⟨0, langA, .start⟩ : PlanState) ∈ forward PlanState.pos
        (candidates ms langA langB (casePlan ms cps) cps) ⟨0, langA, .start⟩ cps.length 0 :=
      @mem_forward_start _ _ _ _ PlanState.pos _ ⟨0, langA, .start⟩ rfl _
    obtain ⟨pr, hPrice, hLe⟩ := price_le_route (fun s a ha =>
      (candidates_pos ha).1) hOther hEnd hStart
    unfold plan
    dsimp only
    rw [hPrice]
    exact hLe
  · intro hGeneration
    unfold plannedStream tokenStream finishBits
    rw [hCost, length_append, length_writeHeader hGeneration]
    rfl

end RemoteTerm.Compression.Mcotxt
