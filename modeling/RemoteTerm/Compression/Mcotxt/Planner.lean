import RemoteTerm.Compression.Mcotxt.Stream
import RemoteTerm.Foundation.LayeredPlan
import RemoteTerm.Foundation.Lists
import Mathlib.Data.Prod.Lex

/-!
# The MCOtxt planner

`_case_plan`, `_symbol_option` and `_plan` of `app/compression/mcotxt.py`. Case is
planned once for the whole text, with a search over the two states of the caps lock. The
tokens are then planned over positions, languages and prediction contexts: the candidates
of a state are the arcs of a layered graph, and the two passes are those of
`Foundation.LayeredPlan`.
-/

namespace RemoteTerm.Compression.Mcotxt

open Foundation

/-! ## Case -/

/-- Bits, toggles and shifts, compared in this order. -/
abbrev CaseCost := ℕ ×ₗ ℕ ×ₗ ℕ

structure CaseDecision where
  previous : Bool
  toggled : Bool
  shifted : Bool
  deriving DecidableEq, Repr

/-- Where to toggle the caps lock before a character, and where to shift. -/
structure CasePlan where
  toggles : List Nat
  shifts : List Nat
  deriving DecidableEq, Repr

namespace ModelSet

variable (ms : ModelSet)

/-- Whether the first table in which the character has case has it as an uppercase
letter. -/
def wantsUpper (cp : Char) : Option Bool :=
  ms.models.findSome? fun m =>
    match m.normalize cp with
    | some normalized =>
      if normalized ∈ m.lowerToUpper.keys then some (normalized ≠ cp) else none
    | none => none

/-- The positions that have case, with the case they need. -/
def caseNeeds (cps : Text) : List (Nat × Bool) :=
  cps.zipIdx.filterMap fun (cp, pos) => (ms.wantsUpper cp).map fun upper => (pos, upper)

end ModelSet

def caseCost (toggled shifted : Bool) : CaseCost :=
  toLex ((if toggled then 9 else 0) + (if shifted then 5 else 0),
    toLex (toggled.toNat, shifted.toNat))

/-- The cheaper way into a caps state, from either state before; the first one on a
tie. -/
def caseStep (previous : Bool → Option CaseCost) (desiredUpper state : Bool) :
    Option (CaseCost × CaseDecision) :=
  [false, true].foldl (fun chosen prevState =>
    match previous prevState with
    | none => chosen
    | some prevCost =>
      let toggled : Bool := prevState ≠ state
      let shifted : Bool := desiredUpper ≠ state
      let cost := prevCost + caseCost toggled shifted
      match chosen with
      | none => some (cost, ⟨prevState, toggled, shifted⟩)
      | some c => if cost < c.1 then some (cost, ⟨prevState, toggled, shifted⟩) else chosen) none

/-- The costs after the positions so far, and the decisions of each, the last first. -/
structure CaseSearch where
  costs : Bool → Option CaseCost
  backtrack : List (Nat × (Bool → Option CaseDecision))

def CaseSearch.init : CaseSearch where
  costs := fun state => if state then none else some (toLex (0, toLex (0, 0)))
  backtrack := []

def CaseSearch.step (search : CaseSearch) (need : Nat × Bool) : CaseSearch where
  costs := fun state => (caseStep search.costs need.2 state).map Prod.fst
  backtrack := (need.1, fun state => (caseStep search.costs need.2 state).map Prod.snd) ::
    search.backtrack

/-- Off only when strictly cheaper: a full tie keeps the caps lock. -/
def CaseSearch.finalState (search : CaseSearch) : Bool :=
  match search.costs false, search.costs true with
  | _, none => false
  | some off, some on => if off < on then false else true
  | none, some _ => true

/-- Read the decisions back from the last position. -/
def caseTrace : List (Nat × (Bool → Option CaseDecision)) → Bool → CasePlan
  | [], _ => ⟨[], []⟩
  | (pos, decisions) :: rest, state =>
    match decisions state with
    | none => ⟨[], []⟩
    | some d =>
      let plan := caseTrace rest d.previous
      ⟨if d.toggled then pos :: plan.toggles else plan.toggles,
        if d.shifted then pos :: plan.shifts else plan.shifts⟩

def casePlan (ms : ModelSet) (cps : Text) : CasePlan :=
  let search := (ms.caseNeeds cps).foldl CaseSearch.step CaseSearch.init
  caseTrace search.backtrack search.finalState

/-! ## Candidates -/

structure SymbolOption where
  tokens : List Token
  bits : Nat
  symbol : Char
  hit : Bool
  deriving DecidableEq, Repr

/-- How a table writes a character, if it can. -/
def symbolOption (m : LanguageModel) (cp : Char) (context : Context) (shift : Bool) :
    Option SymbolOption :=
  match m.normalize cp with
  | none => none
  | some normalized =>
    if shift ∧ normalized ∉ m.lowerToUpper.keys then none
    else
      let lead : List Token := if shift then [.shift] else []
      let shiftBits := if shift then 5 else 0
      let row := m.predictions context
      if normalized ∈ row then
        let rank := row.idxOf normalized
        some ⟨lead ++ [.top4 rank], [2, 3, 4, 4].getD rank 0 + shiftBits, normalized, true⟩
      else if normalized ∈ m.primary then
        some
          ⟨lead ++ [.primary (lastIndexOf m.primary normalized)], 7 + shiftBits, normalized, false⟩
      else if normalized ∈ m.extension then
        some ⟨lead ++ [.extension (lastIndexOf m.extension normalized)], 9 + shiftBits,
          normalized, false⟩
      else none

structure PlanState where
  pos : Nat
  lang : Nat
  context : Context
  deriving DecidableEq, Repr

/-- Bits, tokens, switches and minus the predictions that hit, compared in this order. -/
abbrev PlanCost := ℕ ×ₗ ℕ ×ₗ ℕ ×ₗ ℤ

def planArc (tokens : List Token) (bits switches : Nat) (hit : Bool) (next : PlanState) :
    Arc PlanState Token PlanCost :=
  ⟨tokens, toLex (bits, toLex (tokens.length, toLex (switches, -(hit.toNat : ℤ)))), next⟩

/-- A language that a symbol can be written in, and what it takes to get there. -/
structure Target where
  lang : Nat
  context : Context
  lead : List Token
  bits : Nat
  switches : Nat

section Plan

variable (ms : ModelSet) (langA : Nat) (langB : Option Nat)

def ModelSet.supported (cp : Char) : Bool := cp ∈ punctuation ∨ ms.models.any fun m =>
    (m.normalize cp).isSome

/-- Characters without a token, as long as their bytes fit into one run. -/
def utf8RunFrom : Text → Bytes → Nat → Bytes × Nat
  | [], data, count => (data, count)
  | c :: rest, data, count =>
    if ms.supported c then (data, count)
    else
      let encoded := String.utf8EncodeChar c
      if data ≠ [] ∧ data.length + encoded.length > 32 then (data, count)
      else if (data ++ encoded).length = 32 then (data ++ encoded, count + 1)
      else utf8RunFrom rest (data ++ encoded) (count + 1)

def utf8Run (cp : Char) (rest : Text) : Bytes × Nat :=
  let (data, count) := utf8RunFrom ms (cp :: rest) [] 0
  if count = 0 then (data ++ String.utf8EncodeChar cp, 1) else (data, count)

def toggled (lang : Nat) : Option Nat :=
  match langB with
  | none => none
  | some langB => if lang = langA then some langB else if lang = langB then some langA else none

/-- The tables a symbol may come from, and what it takes to get there. -/
def targets (lang : Nat) (context : Context) : List Target :=
  let other := toggled langA langB lang
  ⟨lang, context, [], 0, 0⟩ :: ((other.toList.map fun other =>
    ⟨other, .start, [.toggleLanguage], 6, 1⟩) ++
      (ms.models.filter fun m => m.globalId ≠ lang ∧ some m.globalId ≠ other).map fun m =>
        ⟨m.globalId, .start, [.switchOther m.globalId], 17, 1⟩)

/-- The character as a symbol of one of the targets. -/
def symbolArc (plan : CasePlan) (pos : Nat) (cp : Char) (t : Target) :
    Option (Arc PlanState Token PlanCost) :=
  match ms.byId t.lang with
  | none => none
  | some m =>
    (symbolOption m cp t.context (pos ∈ plan.shifts)).map fun option =>
      let toggle : List Token := if pos ∈ plan.toggles then [.toggleCase] else []
      let toggleBits := if pos ∈ plan.toggles then 9 else 0
      planArc (t.lead ++ (toggle ++ option.tokens)) (option.bits + toggleBits + t.bits) t.switches
        option.hit ⟨pos + 1, t.lang, .symbol option.symbol⟩

/-- The arcs out of a state: punctuation, symbols, and a raw run if there is neither. -/
def candidates (plan : CasePlan) (cps : Text) (s : PlanState) :
    List (Arc PlanState Token PlanCost) :=
  match cps.drop s.pos with
  | [] => []
  | cp :: rest =>
    let punct :=
      if cp ∈ punctuation then
        [planArc [.punct (lastIndexOf punctuation cp)] 8 0 false
          ⟨s.pos + 1, s.lang, contextAfterPunctuation cp s.context⟩]
      else []
    let symbols := (targets ms langA langB s.lang s.context).filterMap (symbolArc ms plan s.pos cp)
    if cp ∉ punctuation ∧ symbols = [] then
      let (data, count) := utf8Run ms cp rest
      [planArc [.utf8Run data] (14 + 8 * data.length) 0 false ⟨s.pos + count, s.lang, .start⟩]
    else punct ++ symbols

/-- The cheapest tokens for a text under a declared pair, with their cost. -/
def plan (cps : Text) : PlanCost × List Token :=
  let arcs := candidates ms langA langB (casePlan ms cps) cps
  let start : PlanState := ⟨0, langA, .start⟩
  let layers := forward PlanState.pos arcs start cps.length
  let best := backward arcs layers cps.length cps.length
  (((best start).map Priced.cost).getD 0, follow PlanState.pos best cps.length cps.length start)

end Plan

end RemoteTerm.Compression.Mcotxt
