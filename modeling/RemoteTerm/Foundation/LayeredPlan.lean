import Mathlib.Data.List.Basic
import Mathlib.Algebra.Order.Monoid.Unbundled.Basic

/-!
# Planning in layers

A planner looks for a cheapest sequence of tokens from a start state to the last layer of a graph
whose arcs all lead to later layers: the forward pass collects the states that can be reached, the
backward pass prices them, and the plan is read off by following the choices (`plan_route`,
`price_le_route`).
-/

namespace RemoteTerm.Foundation

open List Function

/-- One step of a plan: what it writes, what it costs and where it leads. -/
structure Arc (σ τ κ : Type) where
  tokens : List τ
  cost : κ
  next : σ

/-- A priced state: the cost to the end and the arc that was chosen, none at the end. -/
structure Priced (σ τ κ : Type) where
  cost : κ
  choice : Option (Arc σ τ κ)

/-- The tokens along the arcs from one state to another. -/
inductive Path {σ τ κ : Type} (arcs : σ → List (Arc σ τ κ)) : σ → List τ → σ → Prop where
  | nil (s : σ) : Path arcs s [] s
  | cons {s u : σ} {ts : List τ} (a : Arc σ τ κ) (ha : a ∈ arcs s) (tail : Path arcs a.next ts u) :
      Path arcs s (a.tokens ++ ts) u

/-- A path with the cost of its arcs. -/
inductive Route {σ τ κ : Type} [Zero κ] [Add κ] (arcs : σ → List (Arc σ τ κ)) :
    σ → List τ → κ → σ → Prop where
  | nil (s : σ) : Route arcs s [] 0 s
  | cons {s u : σ} {ts : List τ} {c : κ} (a : Arc σ τ κ) (ha : a ∈ arcs s)
      (tail : Route arcs a.next ts c u) : Route arcs s (a.tokens ++ ts) (c + a.cost) u

theorem Route.path {σ τ κ : Type} [Zero κ] [Add κ] {arcs : σ → List (Arc σ τ κ)} {s u : σ}
    {ts : List τ} {c : κ} (h : Route arcs s ts c u) : Path arcs s ts u := by
  induction h with
  | nil s => exact .nil s
  | cons a ha _ ih => exact .cons a ha ih

section Passes

variable {σ τ κ : Type} [DecidableEq σ] (rank : σ → Nat) (arcs : σ → List (Arc σ τ κ))

/-- Add a state to its layer unless it is there. -/
def visit (layers : Nat → List σ) (s : σ) : Nat → List σ :=
  if s ∈ layers (rank s) then layers
  else update layers (rank s) (layers (rank s) ++ [s])

def expand (layers : Nat → List σ) (s : σ) : Nat → List σ :=
  (arcs s).foldl (fun layers a => visit rank layers a.next) layers

/-- The layers once all states before layer `pos` have been expanded. -/
def forward (start : σ) : Nat → Nat → List σ
  | 0 => visit rank (fun _ => []) start
  | pos + 1 =>
    let layers := forward start pos
    (layers pos).foldl (expand rank arcs) layers

variable [Add κ] [LT κ] [DecidableLT κ]

omit [DecidableEq σ] in
/-- Take the arc if it is the first one or strictly cheaper. -/
def choose (best : σ → Option (Priced σ τ κ)) (chosen : Option (Priced σ τ κ))
    (a : Arc σ τ κ) : Option (Priced σ τ κ) :=
  match best a.next, chosen with
  | none, _ => chosen
  | some tail, none => some ⟨tail.cost + a.cost, some a⟩
  | some tail, some c =>
    if tail.cost + a.cost < c.cost then some ⟨tail.cost + a.cost, some a⟩ else chosen

omit [DecidableEq σ] in
/-- The first arc of least cost. -/
def price (best : σ → Option (Priced σ τ κ)) (s : σ) : Option (Priced σ τ κ) :=
  (arcs s).foldl (choose best) none

/-- Price the states of one layer, one after the other. -/
def priceLayer (best : σ → Option (Priced σ τ κ)) (layer : List σ) : σ → Option (Priced σ τ κ) :=
  layer.foldl (fun best s => update best s (price arcs best s)) best

/-- The prices once the last `k` layers before layer `n` are done. -/
def backward [Zero κ] (layers : Nat → List σ) (n : Nat) : Nat → σ → Option (Priced σ τ κ)
  | 0 => fun s => if s ∈ layers n then some ⟨0, none⟩ else none
  | k + 1 => priceLayer arcs (backward layers n k) (layers (n - 1 - k))

omit [DecidableEq σ] [Add κ] [LT κ] [DecidableLT κ] in
/-- Follow the choices up to layer `n`. -/
def follow (best : σ → Option (Priced σ τ κ)) (n : Nat) : Nat → σ → List τ
  | 0, _ => []
  | fuel + 1, s =>
    if rank s < n then
      match best s with
      | some ⟨_, some a⟩ => a.tokens ++ follow best n fuel a.next
      | _ => []
    else []

end Passes

/-! ## The forward pass -/

section Forward

variable {σ τ κ : Type} [DecidableEq σ] {rank : σ → Nat} {arcs : σ → List (Arc σ τ κ)}
  {layers : Nat → List σ} {start s t : σ} {pos k n : Nat}

theorem mem_visit : t ∈ visit rank layers s k ↔ t ∈ layers k ∨ (t = s ∧ k = rank s) := by
  unfold visit
  split
  next hMem =>
    constructor
    · exact .inl
    · rintro (h | ⟨rfl, rfl⟩)
      · exact h
      · exact hMem
  · by_cases hk : k = rank s
    · subst hk
      rw [update_self, mem_append, mem_singleton]
      simp
    · rw [update_of_ne hk]
      simp [hk]

theorem mem_foldl_visit {as : List (Arc σ τ κ)} :
    t ∈ as.foldl (fun layers a => visit rank layers a.next) layers k ↔
      t ∈ layers k ∨ ∃ a ∈ as, t = a.next ∧ k = rank t := by
  induction as generalizing layers with
  | nil => simp
  | cons a as ih =>
    have hRank : t = a.next ∧ k = rank a.next ↔ t = a.next ∧ k = rank t :=
      and_congr_right fun h => by rw [h]
    rw [foldl_cons, ih, mem_visit, hRank]
    simp only [mem_cons, exists_eq_or_imp, or_assoc]

theorem mem_foldl_expand {states : List σ} : t ∈ states.foldl (expand rank arcs) layers k ↔
      t ∈ layers k ∨ ∃ s ∈ states, ∃ a ∈ arcs s, t = a.next ∧ k = rank t := by
  induction states generalizing layers with
  | nil => simp
  | cons s states ih =>
    rw [foldl_cons, ih, expand, mem_foldl_visit]
    simp only [mem_cons, exists_eq_or_imp, or_assoc]

/-- What the layers hold: what they held one step earlier, and the ends of the arcs out
of the layer that was expanded. -/
theorem mem_forward_succ : t ∈ forward rank arcs start (pos + 1) k ↔
      t ∈ forward rank arcs start pos k ∨
        ∃ s ∈ forward rank arcs start pos pos, ∃ a ∈ arcs s, t = a.next ∧ k = rank t := by
  rw [forward]
  exact mem_foldl_expand

theorem rank_of_mem_forward (h : t ∈ forward rank arcs start pos k) : rank t = k := by
  induction pos with
  | zero =>
    rw [forward, mem_visit] at h
    rcases h with h | ⟨rfl, rfl⟩
    · cases h
    · rfl
  | succ pos ih =>
    rcases mem_forward_succ.mp h with h | ⟨s, -, a, -, rfl, rfl⟩
    · exact ih h
    · rfl

theorem forward_mono {pos' : Nat} (hle : pos ≤ pos')
    (h : t ∈ forward rank arcs start pos k) : t ∈ forward rank arcs start pos' k := by
  induction hle with
  | refl => exact h
  | step _ ih => exact mem_forward_succ.mpr (.inl ih)

variable (hArcs : ∀ s, ∀ a ∈ arcs s, rank s < rank a.next)

include hArcs

theorem forward_settled (hle : k ≤ pos)
    (h : t ∈ forward rank arcs start pos k) : t ∈ forward rank arcs start k k := by
  induction pos with
  | zero =>
    obtain rfl : k = 0 := by omega
    exact h
  | succ pos ih =>
    by_cases hk : k = pos + 1
    · subst hk
      exact h
    rcases mem_forward_succ.mp h with h | ⟨s, hs, a, ha, rfl, rfl⟩
    · exact ih (by omega) h
    · have hLt := hArcs s a ha
      have hRank := rank_of_mem_forward hs
      omega

/-- Every arc out of a state before the last layer ends in a state that was collected. -/
theorem forward_closed (hk : k < n)
    (hs : s ∈ forward rank arcs start n k) {a : Arc σ τ κ} (ha : a ∈ arcs s) :
    a.next ∈ forward rank arcs start n (rank a.next) := by
  have hSettled := forward_settled hArcs (by omega) hs
  refine forward_mono hk (mem_forward_succ.mpr (.inr ⟨s, hSettled, a, ha, rfl, rfl⟩))

end Forward

/-! ## The backward pass -/

section Backward

variable {σ τ κ : Type} [DecidableEq σ] {rank : σ → Nat} {arcs : σ → List (Arc σ τ κ)} [Add κ]
  [LT κ] [DecidableLT κ]
  {best : σ → Option (Priced σ τ κ)} {start s : σ} {n k : Nat}

omit [DecidableEq σ] in
/-- When the ends of all arcs have a price, one of the arcs is chosen. -/
theorem price_spec (hne : arcs s ≠ []) (hBest : ∀ a ∈ arcs s, (best a.next).isSome) :
    ∃ a ∈ arcs s, ∃ tail, best a.next = some tail ∧
      price arcs best s = some ⟨tail.cost + a.cost, some a⟩ := by
  unfold price
  cases hArcs : arcs s with
  | nil => exact absurd hArcs hne
  | cons first as =>
    rw [hArcs] at hBest
    obtain ⟨tail, hTail⟩ := Option.isSome_iff_exists.mp (hBest first mem_cons_self)
    refine foldlRecOn (motive := fun chosen : Option (Priced σ τ κ) =>
      ∃ a ∈ first :: as, ∃ tail, best a.next = some tail ∧
      chosen = some ⟨tail.cost + a.cost, some a⟩) as _ ⟨first, mem_cons_self, tail, hTail, ?_⟩ ?_
    · unfold choose
      rw [hTail]
    · rintro _ ⟨b, hb, before, hBefore, rfl⟩ a ha
      obtain ⟨tail, hTail⟩ := Option.isSome_iff_exists.mp (hBest a (mem_cons_of_mem _ ha))
      unfold choose
      rw [hTail]
      dsimp only
      split
      · exact ⟨a, mem_cons_of_mem _ ha, tail, hTail, rfl⟩
      · exact ⟨b, hb, before, hBefore, rfl⟩

omit [DecidableEq σ] in
theorem price_congr {best' : σ → Option (Priced σ τ κ)}
    (h : ∀ a ∈ arcs s, best a.next = best' a.next) : price arcs best s = price arcs best' s := by
  refine foldl_ext _ _ _ ?_
  intro chosen a ha
  unfold choose
  rw [h a ha]

theorem priceLayer_apply (hArcs : ∀ s, ∀ a ∈ arcs s, rank s < rank a.next) {layer : List σ}
    (hLayer : ∀ s ∈ layer, rank s = k) (s : σ) :
    priceLayer arcs best layer s = if s ∈ layer then price arcs best s else best s := by
  unfold priceLayer
  induction layer generalizing best with
  | nil => simp
  | cons u layer ih =>
    have hu : rank u = k := hLayer u mem_cons_self
    rw [foldl_cons, ih (fun s hs => hLayer s (mem_cons_of_mem _ hs))]
    by_cases hs : s ∈ layer
    · rw [if_pos hs, if_pos (mem_cons_of_mem _ hs)]
      refine price_congr ?_
      intro a ha
      have hLt := hArcs s a ha
      have hRank : rank s = k := hLayer s (mem_cons_of_mem _ hs)
      refine update_of_ne ?_ _ _
      intro hEq
      rw [hEq, hu, hRank] at hLt
      exact Nat.lt_irrefl _ hLt
    · rw [if_neg hs]
      by_cases hsu : s = u
      · subst hsu
        rw [update_self, if_pos mem_cons_self]
      · rw [update_of_ne hsu, if_neg (by simp [hsu, hs])]

variable [Zero κ]

/-- Once priced, a state keeps its price: that of its arcs, or nothing in the last layer. -/
theorem backward_eq (hArcs : ∀ s, ∀ a ∈ arcs s, rank s < rank a.next)
    (hk : k ≤ n) {q : Nat} (hq : n - k ≤ q) (hqn : q ≤ n) (hs : s ∈ forward rank arcs start n q) :
    backward arcs (forward rank arcs start n) n k s =
      if q = n then some ⟨0, none⟩ else price arcs
        (backward arcs (forward rank arcs start n) n k) s := by
  have hRank := rank_of_mem_forward hs
  induction k with
  | zero =>
    obtain rfl : q = n := by omega
    rw [if_pos rfl, backward]
    exact if_pos hs
  | succ k ih =>
    have hLayer : ∀ t, backward arcs (forward rank arcs start n) n (k + 1) t =
        if t ∈ forward rank arcs start n (n - 1 - k) then
          price arcs (backward arcs (forward rank arcs start n) n k) t
        else backward arcs (forward rank arcs start n) n k t :=
      priceLayer_apply hArcs fun t ht => rank_of_mem_forward ht
    -- the layer that is priced comes before all arcs out of this state
    have hSame : price arcs (backward arcs (forward rank arcs start n) n (k + 1)) s =
        price arcs (backward arcs (forward rank arcs start n) n k) s := by
      refine price_congr ?_
      intro a ha
      have hStep := hArcs s a ha
      rw [hLayer, if_neg]
      intro hOther
      have hNext := rank_of_mem_forward hOther
      omega
    rw [hSame, hLayer]
    by_cases hCurrent : q = n - 1 - k
    · subst hCurrent
      rw [if_pos hs, if_neg (by omega)]
    have hNot : s ∉ forward rank arcs start n (n - 1 - k) := by
      intro hOther
      exact hCurrent (hRank.symm.trans (rank_of_mem_forward hOther))
    rw [if_neg hNot]
    exact ih (by omega) (by omega)

end Backward

/-! ## The plan -/

section Plan

variable {σ τ κ : Type} [DecidableEq σ] {rank : σ → Nat} {arcs : σ → List (Arc σ τ κ)}
  {start : σ}

theorem mem_forward_start (hStart : rank start = 0) (n : Nat) :
    start ∈ forward rank arcs start n 0 := by
  refine forward_mono (Nat.zero_le n) ?_
  rw [forward, mem_visit]
  exact .inr ⟨rfl, hStart.symm⟩

variable (hArcs : ∀ s, ∀ a ∈ arcs s, rank s < rank a.next)

include hArcs

section Follow

variable [Add κ] [LT κ] [DecidableLT κ] [Zero κ]

/-- From every collected state the choices lead to the last layer at its price. -/
theorem follow_route {n : Nat}
    (hBound : ∀ s, rank s < n → arcs s ≠ [] ∧ ∀ a ∈ arcs s, rank a.next ≤ n) {fuel : Nat} {s : σ}
    {q : Nat} (hs : s ∈ forward rank arcs start n q) (hq : q ≤ n) (hFuel : n ≤ q + fuel) :
    ∃ t pr, rank t = n ∧ backward arcs (forward rank arcs start n) n n s = some pr ∧
      Route arcs s (follow rank (backward arcs (forward rank arcs start n) n n) n fuel s) pr.cost
        t := by
  have hRank := rank_of_mem_forward hs
  have hPrice := backward_eq hArcs (Nat.le_refl n) (by omega) hq hs
  induction fuel generalizing s q with
  | zero =>
    obtain rfl : q = n := by omega
    rw [if_pos rfl] at hPrice
    exact ⟨s, _, hRank, hPrice, .nil s⟩
  | succ fuel ih =>
    unfold follow
    split
    next hBefore =>
      obtain ⟨hne, hLe⟩ := hBound s hBefore
      have hNext : ∀ a ∈ arcs s, ∃ t pr, rank t = n ∧
          backward arcs (forward rank arcs start n) n n a.next = some pr ∧
          Route arcs a.next (follow rank
            (backward arcs (forward rank arcs start n) n n) n fuel a.next) pr.cost t := by
        intro a ha
        have hStep := hArcs s a ha
        have hClosed := forward_closed hArcs (by omega) hs ha
        exact ih hClosed (hLe a ha) (by omega) rfl
          (backward_eq hArcs (Nat.le_refl n) (by omega) (hLe a ha) hClosed)
      have hPriced : ∀ a ∈ arcs s,
          (backward arcs (forward rank arcs start n) n n a.next).isSome := by
        intro a ha
        obtain ⟨t, pr, -, hPr, -⟩ := hNext a ha
        exact Option.isSome_of_eq_some hPr
      obtain ⟨a, ha, tail, hTail, hChosen⟩ := price_spec hne hPriced
      obtain ⟨t, pr, ht, hPr, hRoute⟩ := hNext a ha
      obtain rfl : tail = pr := Option.some.inj (hTail.symm.trans hPr)
      rw [if_neg (by omega), hChosen] at hPrice
      rw [hPrice]
      exact ⟨t, _, ht, rfl, .cons a ha hRoute⟩
    · obtain rfl : q = n := by omega
      rw [if_pos rfl] at hPrice
      exact ⟨s, _, hRank, hPrice, .nil s⟩

/-- The plan is the tokens of a path from the start to the last layer, at the price of the start. -/
theorem plan_route {n : Nat}
    (hBound : ∀ s, rank s < n → arcs s ≠ [] ∧ ∀ a ∈ arcs s, rank a.next ≤ n)
    (hStart : rank start = 0) :
    ∃ t pr, rank t = n ∧ backward arcs (forward rank arcs start n) n n start = some pr ∧
      Route arcs start (follow rank (backward arcs (forward rank arcs start n) n n) n n start)
        pr.cost t :=
  follow_route hArcs hBound (mem_forward_start hStart n) (Nat.zero_le n) (by omega)

end Follow

omit [DecidableEq σ] in
theorem Route.rank_le [Zero κ] [Add κ] {s u : σ} {ts : List τ} {c : κ} (h : Route arcs s ts c u) :
    rank s ≤ rank u := by
  induction h with
  | nil s => exact Nat.le_refl _
  | cons a ha _ ih => exact (hArcs _ a ha).le.trans ih

end Plan

/-! ## No route is cheaper -/

section Least

variable {σ τ κ : Type} {rank : σ → Nat} {arcs : σ → List (Arc σ τ κ)} [Add κ] [LinearOrder κ]

/-- Looking at an arc makes the choice no dearer than it was, nor than the arc. -/
theorem choose_le (best : σ → Option (Priced σ τ κ)) (chosen : Option (Priced σ τ κ))
    (a : Arc σ τ κ) :
    (∀ c, chosen = some c → ∃ c', choose best chosen a = some c' ∧ c'.cost ≤ c.cost) ∧
      ∀ tail, best a.next = some tail → ∃ c', choose best chosen a = some c' ∧
        c'.cost ≤ tail.cost + a.cost := by
  unfold choose
  cases best a.next with
  | none => exact ⟨fun c hc => ⟨c, hc, le_refl _⟩, nofun⟩
  | some tail =>
    cases chosen with
    | none =>
      refine ⟨nofun, ?_⟩
      rintro _ ⟨⟩
      exact ⟨_, rfl, le_refl _⟩
    | some c =>
      dsimp only
      split
      next hLess =>
        constructor
        · rintro _ ⟨⟩
          exact ⟨_, rfl, hLess.le⟩
        · rintro _ ⟨⟩
          exact ⟨_, rfl, le_refl _⟩
      next hNot =>
        constructor
        · rintro _ ⟨⟩
          exact ⟨_, rfl, le_refl _⟩
        · rintro _ ⟨⟩
          exact ⟨_, rfl, not_lt.mp hNot⟩

theorem foldl_choose_le (best : σ → Option (Priced σ τ κ)) (as : List (Arc σ τ κ))
    {c : Priced σ τ κ} : ∃ c', as.foldl (choose best) (some c) = some c' ∧ c'.cost ≤ c.cost := by
  induction as generalizing c with
  | nil => exact ⟨c, rfl, le_refl _⟩
  | cons a as ih =>
    obtain ⟨c₁, hChoose, hLe⟩ := (choose_le best (some c) a).1 c rfl
    obtain ⟨c₂, hFold, hLe'⟩ := @ih c₁
    rw [foldl_cons, hChoose]
    exact ⟨c₂, hFold, hLe'.trans hLe⟩

theorem price_le {best : σ → Option (Priced σ τ κ)} {s : σ} {a : Arc σ τ κ} (ha : a ∈ arcs s)
    {tail : Priced σ τ κ} (hTail : best a.next = some tail) :
    ∃ pr, price arcs best s = some pr ∧ pr.cost ≤ tail.cost + a.cost := by
  obtain ⟨before, after, hSplit⟩ := append_of_mem ha
  unfold price
  rw [hSplit, foldl_append, foldl_cons]
  obtain ⟨c, hChoose, hLe⟩ := (choose_le best (before.foldl (choose best) none) a).2 tail hTail
  obtain ⟨c', hFold, hLe'⟩ := @foldl_choose_le _ _ _ _ _ best after c
  rw [hChoose]
  exact ⟨c', hFold, hLe'.trans hLe⟩

variable [DecidableEq σ] [Zero κ] [AddRightMono κ]

/-- The price of a collected state is no more than any route from it to the last layer costs. -/
theorem price_le_route (hArcs : ∀ s, ∀ a ∈ arcs s, rank s < rank a.next) {start : σ} {n : Nat}
    {s t : σ} {ts : List τ} {c : κ} (h : Route arcs s ts c t) (ht : rank t = n)
    (hs : s ∈ forward rank arcs start n (rank s)) :
    ∃ pr, backward arcs (forward rank arcs start n) n n s = some pr ∧ pr.cost ≤ c := by
  induction h with
  | nil s =>
    have hPrice := backward_eq hArcs (Nat.le_refl n) (by omega) ht.le hs
    rw [if_pos ht] at hPrice
    exact ⟨_, hPrice, le_refl _⟩
  | @cons s t ts c a ha hTail ih =>
    have hStep := hArcs s a ha
    have hEnd := hTail.rank_le hArcs
    obtain ⟨tail, hBest, hLe⟩ := ih ht (forward_closed hArcs (by omega) hs ha)
    have hPrice := backward_eq hArcs (Nat.le_refl n) (by omega) (by omega) hs
    rw [if_neg (by omega)] at hPrice
    obtain ⟨pr, hPr, hCost⟩ := price_le ha hBest
    exact ⟨pr, hPrice.trans hPr, hCost.trans (add_le_add_left hLe a.cost)⟩

end Least

end RemoteTerm.Foundation
