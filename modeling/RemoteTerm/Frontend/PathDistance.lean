import Mathlib.Algebra.Order.Ring.Rat

/-!
# The length of a path

The distance shown for a path is the sum over the neighbours among sender, hops and receiver that
are both known, except that the last leg is left out where only the last hop is known.
-/

namespace RemoteTerm.Frontend

open List

structure Location where
  lat : Option ℚ
  lon : Option ℚ

/-- The locations of the contacts that a hop matches. -/
abbrev PathHop := List Location
abbrev Place := ℚ × ℚ
abbrev Leg := Place × Place

namespace Location

def coordinates (p : Location) : Option Place := p.lat.bind fun lat => p.lon.map fun lon =>
    (lat, lon)

def isValidLocation (p : Location) : Bool :=
  p.coordinates.any fun (lat, lon) =>
    ¬ (lat < -90 ∨ 90 < lat ∨ lon < -180 ∨ 180 < lon) ∧ ¬ (lat = 0 ∧ lon = 0)

def place (p : Location) : Option Place := if p.isValidLocation then p.coordinates else none

end Location

/-- The only match, if its location is valid. -/
def PathHop.known : PathHop → Option Location
  | [m] => if m.isValidLocation then some m else none
  | _ => none

def PathHop.place (hop : PathHop) : Option Place := hop.known.bind Location.coordinates

/-- The neighbours that are both known. -/
def legs : List (Option Place) → List Leg
  | some a :: some b :: ends => (a, b) :: legs (some b :: ends)
  | _ :: ends => legs ends
  | [] => []

section

variable {D : Type} [AddZeroClass D] (distance : Leg → D)

def calculateDistance (a b : Location) : Option D :=
  a.coordinates.bind fun a => b.coordinates.map fun b => distance (a, b)

/-- The variables of the loop over the hops. -/
structure Walk (D : Type) where
  i : Nat
  prev : Location
  totalDistance : D
  hasAnyDistance : Bool
  lastUnambiguousHopIndex : Int

namespace Walk

def addLeg (s : Walk D) (p : Location) : Walk D :=
  match calculateDistance distance s.prev p with
  | some dist => { s with totalDistance := s.totalDistance + dist, hasAnyDistance := true }
  | none => s

def visit (s : Walk D) (hop : PathHop) : Walk D :=
  match hop.known with
  | none => { s with i := s.i + 1, prev := ⟨none, none⟩ }
  | some p => { s.addLeg distance p with i := s.i + 1, prev := p, lastUnambiguousHopIndex := s.i }

/-- The leg to the receiver. -/
def finish (s : Walk D) (hopCount : Nat) (receiver : Location) : Walk D :=
  if s.lastUnambiguousHopIndex = hopCount - 1 ∧ s.prev.coordinates.isSome ∧
      receiver.isValidLocation then
    s.addLeg distance receiver
  else s

def result (s : Walk D) : Option (List D) :=
  if s.hasAnyDistance then some [s.totalDistance] else none

end Walk

/-- The walk over the rest of the hops, from `startHopIndex` on. -/
def sumFrom (prev : Location) (rest : List PathHop) (hopCount : Nat) (receiver : Location) :
    Option (List D) :=
  ((rest.foldl (Walk.visit distance) ⟨hopCount - rest.length, prev, 0, false, -1⟩).finish distance
    hopCount receiver).result

def calculateTotalDistances (sender : Location) (hops : List PathHop) (receiver : Location) :
    Option (List D) :=
  if hops = [] then
    if ¬ sender.isValidLocation ∨ ¬ receiver.isValidLocation then none
    else (calculateDistance distance sender receiver).map fun dist => [dist]
  else if sender.isValidLocation then sumFrom distance sender hops hops.length receiver
  else
    match hops.dropWhile (·.known.isNone) with
    | [] => none
    | hop :: rest => hop.known.bind fun p => sumFrom distance p rest hops.length receiver

def sum (legs : List Leg) : D := (legs.map distance).foldl (· + ·) 0

def total (legs : List Leg) : Option (List D) :=
  if legs = [] then none else some [sum distance legs]

variable {distance} {ends : List (Option Place)} {p receiver : Location} {hop : PathHop}

theorem coordinates_of_valid (h : p.isValidLocation) : ∃ a, p.coordinates = some a :=
  ((Option.any_eq_true ..).mp h).imp fun _ ha => ha.1

theorem valid_of_known (h : hop.known = some p) : p.isValidLocation := by
  unfold PathHop.known at h
  split at h
  · obtain ⟨hValid, hSame⟩ := Option.ite_none_right_eq_some.mp h
    exact Option.some.inj hSame ▸ hValid
  · cases h

@[simp]
theorem legs_none (ends : List (Option Place)) : legs (none :: ends) = legs ends := by
  cases ends <;> rfl

@[simp]
theorem legs_singleton (a : Option Place) : legs [a] = [] := by
  cases a <;> rfl

@[simp]
theorem legs_pair_none (a : Option Place) : legs [a, none] = [] := by
  cases a <;> rfl

theorem legs_concat {a : Option Place} (h : ends.getLast? = some a) (b : Option Place) :
    legs (ends ++ [b]) = legs ends ++ legs [a, b] := by
  obtain ⟨ends, rfl⟩ := getLast?_eq_some_iff.mp h
  clear h
  induction ends with
  | nil => cases a <;> cases b <;> rfl
  | cons x ends ih =>
    match x, ends with
    | none, _ => simpa using ih
    | some x, [] => cases a <;> cases b <;> rfl
    | some x, none :: ends => exact ih
    | some x, some y :: ends => exact congrArg ((x, y) :: ·) ih

/-- The walk has come along the ends. -/
structure Walk.At (distance : Leg → D) (s : Walk D) (ends : List (Option Place)) : Prop where
  prev : ends.getLast? = some s.prev.coordinates
  sum : (s.totalDistance, s.hasAnyDistance) = (sum distance (legs ends), !(legs ends).isEmpty)

namespace Walk

variable {s : Walk D}

variable (h : s.At distance ends)

include h

theorem At.addLeg (p : Location) :
    ((s.addLeg distance p).totalDistance, (s.addLeg distance p).hasAnyDistance) =
      (Frontend.sum distance (legs (ends ++ [p.coordinates])),
        !(legs (ends ++ [p.coordinates])).isEmpty) := by
  obtain ⟨hSum, hAny⟩ := Prod.mk.inj h.sum
  rw [legs_concat h.prev]
  unfold Walk.addLeg calculateDistance
  cases s.prev.coordinates <;> cases p.coordinates <;> simp [legs, Frontend.sum, hSum, hAny]

theorem At.visit (hop : PathHop) : (s.visit distance hop).At distance (ends ++ [hop.place]) := by
  unfold Walk.visit PathHop.place
  cases hop.known with
  | none => exact ⟨getLast?_concat, by simpa [legs_concat h.prev] using h.sum⟩
  | some p => exact ⟨getLast?_concat, h.addLeg p⟩

theorem At.visits (hops : List PathHop) :
    (hops.foldl (Walk.visit distance) s).At distance (ends ++ hops.map PathHop.place) ∧
      (hops.foldl (Walk.visit distance) s).i = s.i + hops.length := by
  induction hops generalizing s ends with
  | nil => exact ⟨by simpa using h, rfl⟩
  | cons hop hops ih =>
    obtain ⟨hAt, hIndex⟩ := ih (h.visit hop)
    have hNext : (s.visit distance hop).i = s.i + 1 := by unfold Walk.visit; split <;> rfl
    exact ⟨by simpa using hAt, by rw [foldl_cons, hIndex, hNext, length_cons]; omega⟩

omit h in
theorem result_eq {legs : List Leg}
    (h : (s.totalDistance, s.hasAnyDistance) = (Frontend.sum distance legs, !legs.isEmpty)) :
    s.result = total distance legs := by
  obtain ⟨hSum, hAny⟩ := Prod.mk.inj h
  unfold result total
  rw [hAny, hSum]
  cases legs <;> rfl

/-- The leg to the receiver is added where the last hop has just been walked. -/
theorem At.finish {hopCount : Nat} (receiver : Location)
    (hLast : s.prev.coordinates.isSome → s.lastUnambiguousHopIndex = hopCount - 1) :
    (s.finish distance hopCount receiver).result =
      total distance (legs (ends ++ [receiver.place])) := by
  unfold Walk.finish Location.place
  split
  case isTrue hAll =>
    rw [if_pos hAll.2.2]
    exact result_eq (h.addLeg receiver)
  case isFalse hNot =>
    rw [result_eq h.sum, legs_concat h.prev]
    split
    case isTrue hValid =>
      have hNone : s.prev.coordinates = none :=
        Option.not_isSome_iff_eq_none.mp fun hSome => hNot ⟨hLast hSome, hSome, hValid⟩
      simp [hNone]
    case isFalse => simp

end Walk

theorem sumFrom_eq {rest : List PathHop} {hopCount : Nat} (hRest : rest ≠ [])
    (hLength : rest.length ≤ hopCount) :
    sumFrom distance p rest hopCount receiver =
      total distance (legs (p.coordinates :: rest.map PathHop.place ++ [receiver.place])) := by
  obtain ⟨rest, hop, rfl⟩ : ∃ init hop, rest = init ++ [hop] :=
    ⟨_, _, (dropLast_concat_getLast hRest).symm⟩
  have hStart : Walk.At distance ⟨hopCount - (rest ++ [hop]).length, p, 0, false, -1⟩
      [p.coordinates] :=
    ⟨rfl, by simp [sum]⟩
  obtain ⟨hAt, hIndex⟩ := hStart.visits rest
  unfold sumFrom
  rw [foldl_append, foldl_cons, foldl_nil]
  generalize rest.foldl (Walk.visit distance) _ = s at hAt hIndex
  have hLast : (s.visit distance hop).prev.coordinates.isSome →
      (s.visit distance hop).lastUnambiguousHopIndex = hopCount - 1 := fun hSome => by
    unfold Walk.visit at hSome ⊢
    cases hKnown : hop.known with
    | none =>
      rw [hKnown] at hSome
      cases hSome
    | some p =>
      simp only [length_append, length_singleton] at hIndex hLength ⊢
      omega
  simpa using (hAt.visit hop).finish receiver hLast

/-- The hops before the first known one are in no leg. -/
theorem legs_dropWhile (hops : List PathHop) (ends : List (Option Place)) :
    legs (hops.map PathHop.place ++ ends) =
      legs ((hops.dropWhile (·.known.isNone)).map PathHop.place ++ ends) := by
  induction hops with
  | nil => rfl
  | cons hop hops ih =>
    cases hKnown : hop.known with
    | none => simp [hKnown, PathHop.place, ih]
    | some p => simp [hKnown]

/-- From the only known hop, when it is the last one, no leg is walked. -/
theorem sumFrom_nil {hopCount : Nat} (hHops : hopCount ≠ 0) :
    sumFrom distance p [] hopCount receiver = none := by
  have hNever : ¬(-1 : Int) = hopCount - 1 := by omega
  simp [sumFrom, Walk.finish, Walk.result, hNever]

/-- The total is the sum over the neighbours that are both known, and none where there are none,
if and only if the sender is known, or the receiver is not, or the first known hop is not the
last hop. -/
theorem calculateTotalDistances_eq_iff (distance : Leg → D) (sender : Location)
    (hops : List PathHop) (receiver : Location) :
    calculateTotalDistances distance sender hops receiver =
        total distance (legs (sender.place :: hops.map PathHop.place ++ [receiver.place])) ↔
      (¬ sender.isValidLocation → receiver.isValidLocation →
        ∀ hop, hops.dropWhile (·.known.isNone) ≠ [hop]) := by
  unfold calculateTotalDistances Location.place
  by_cases hNone : hops = []
  · subst hNone
    refine iff_of_true ?_ fun _ _ hop => (cons_ne_nil _ _).symm
    by_cases hSender : sender.isValidLocation <;> by_cases hReceiver : receiver.isValidLocation
    · obtain ⟨a, ha⟩ := coordinates_of_valid hSender
      obtain ⟨b, hb⟩ := coordinates_of_valid hReceiver
      simp [hSender, hReceiver, calculateDistance, ha, hb, legs, total, sum]
    all_goals simp [hSender, hReceiver, total]
  rw [if_neg hNone]
  by_cases hSender : sender.isValidLocation
  · rw [if_pos hSender, if_pos hSender]
    exact iff_of_true (sumFrom_eq hNone (Nat.le_refl _)) fun h => absurd hSender h
  rw [if_neg hSender, if_neg hSender, cons_append, legs_none, legs_dropWhile,
    forall_prop_of_true hSender]
  have hHead := head?_dropWhile_not (fun hop : PathHop => hop.known.isNone) hops
  have hLength : (hops.dropWhile (·.known.isNone)).length ≤ hops.length :=
    (dropWhile_suffix _).length_le
  generalize hops.dropWhile (·.known.isNone) = left at hHead hLength ⊢
  match left with
  | [] => simp [total]
  | hop :: rest =>
    cases hKnown : hop.known with
    | none => simp [hKnown] at hHead
    | some p =>
      obtain ⟨a, ha⟩ := coordinates_of_valid (valid_of_known hKnown)
      by_cases hRest : rest = []
      · -- the last hop is the first known one: its leg to the receiver is not walked
        subst hRest
        have hWalk : sumFrom distance p [] hops.length receiver = none :=
          sumFrom_nil (length_eq_zero_iff.not.mpr hNone)
        by_cases hReceiver : receiver.isValidLocation
        · obtain ⟨b, hb⟩ := coordinates_of_valid hReceiver
          simp [hKnown, hWalk, hReceiver, PathHop.place, ha, hb, legs, total]
        · simp [hKnown, hWalk, hReceiver, total]
      · refine iff_of_true ?_ fun _ other hSame => hRest (cons.inj hSame).2
        simpa [hKnown, PathHop.place, Location.place] using
          sumFrom_eq (p := p) hRest (Nat.le_of_succ_le hLength)

end

/-- The only hop is known, and so is the receiver. -/
theorem final_leg_missing :
    legs [none, PathHop.place [⟨some 1, some 5⟩], Location.place ⟨some 1, some 9⟩] =
      [((1, 5), (1, 9))] ∧
      calculateTotalDistances (fun _ => 1) ⟨none, none⟩ [[⟨some 1, some 5⟩]] ⟨some 1, some 9⟩ =
        none := by
  decide

end RemoteTerm.Frontend
