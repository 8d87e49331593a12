import RemoteTerm.Foundation.Text
import Mathlib.Tactic.Linarith

/-!
# Stored routes of contacts

`normalize_contact_route` of `app/path_utils.py`. A stored length can be a packed byte, with the
hash mode in its two upper bits. Routes become canonical except for two kinds of rows: a byte of
the reserved mode 3 stays as the length unless a path corrects it, and a path that is too short
and not of whole hops stays beside a length that it does not have.
-/

namespace RemoteTerm.Radio

open Foundation

structure ContactRoute where
  path : Text
  len : Int
  hashMode : Int
  deriving DecidableEq, Repr

namespace ContactRoute

def flood : ContactRoute := ⟨[], -1, -1⟩

/-- Hop count and hash mode of a stored length; `none` is a flood route. -/
def unpackLen (len : Int) (mode : Option Int) : Option (Int × Option Int) :=
  if len < -1 ∨ 63 < len then
    let packed := len % 256
    if packed = 0xFF then none
    else if packed / 64 ≠ 3 then some (packed % 64, some (packed / 64))
    else some (len, mode)
  else if len = -1 then none
  else some (len, mode)

def knownMode (mode : Option Int) : Int :=
  match mode with
  | some mode => if 0 ≤ mode ∧ mode ≤ 2 then mode else 0
  | none => 0

/-- A longer path is cut; for a shorter one of whole hops the length is corrected. -/
def fitPath (path : Text) (len mode : Int) : ContactRoute :=
  let bytesPerHop := mode + 1
  let actualBytes : Int := path.length / 2
  let expectedBytes := len * bytesPerHop
  if path = [] then ⟨path, len, mode⟩
  else if expectedBytes < actualBytes ∧ 0 ≤ expectedBytes then
    ⟨path.take (expectedBytes * 2).toNat, len, mode⟩
  else if actualBytes < expectedBytes ∧ 0 < bytesPerHop ∧ actualBytes % bytesPerHop = 0 then
    ⟨path, actualBytes / bytesPerHop, mode⟩
  else ⟨path, len, mode⟩

def normalizeContactRoute (pathHex : Option Text) (pathLen pathHashMode : Option Int) :
    ContactRoute :=
  match unpackLen (pathLen.getD (-1)) pathHashMode with
  | none => flood
  | some (len, mode) => fitPath (pathHex.getD []) len (knownMode mode)

/-- The flood route, or hops of one to three bytes, with no path or one that has them all. -/
def Canonical (r : ContactRoute) : Prop :=
  r = flood ∨ (0 ≤ r.len ∧ r.len ≤ 63) ∧ (0 ≤ r.hashMode ∧ r.hashMode ≤ 2) ∧
      (r.path = [] ∨ (r.path.length : Int) = 2 * (r.len * (r.hashMode + 1)))

/-- A path that ends within a hop, before the hops that are claimed. -/
def Ragged (path : Text) (len mode : Int) : Prop :=
  (path.length / 2 : Int) < len * (mode + 1) ∧ (path.length / 2 : Int) % (mode + 1) ≠ 0

/-- The length is a hop count and the path is not ragged; or the length is too large, as a byte of
the reserved mode is, and there is a path of whole hops, at most 63, to correct it by. -/
def Repairable (path : Text) (len mode : Int) : Prop :=
  (0 ≤ len ∧ len ≤ 63) ∧ ¬Ragged path len mode ∨
    63 < len ∧ path ≠ [] ∧ (path.length / 2 : Int) % (mode + 1) = 0 ∧
      (path.length / 2 : Int) / (mode + 1) ≤ 63

variable {path : Text} {len mode : Int}

theorem knownMode_bounds (mode : Option Int) : 0 ≤ knownMode mode ∧ knownMode mode ≤ 2 := by
  unfold knownMode
  split
  · split <;> omega
  · omega

/-- With a mode, a route is never the flood route. -/
theorem canonical_iff (hMode : 0 ≤ mode ∧ mode ≤ 2) : Canonical ⟨path, len, mode⟩ ↔
      (0 ≤ len ∧ len ≤ 63) ∧ (path = [] ∨ (path.length : Int) = 2 * (len * (mode + 1))) := by
  have hFlood : (⟨path, len, mode⟩ : ContactRoute) ≠ flood := by
    intro hSame
    have hNone := congrArg ContactRoute.hashMode hSame
    simp only [flood] at hNone
    omega
  unfold Canonical
  rw [or_iff_right hFlood]
  exact and_congr_right' (and_iff_right hMode)

theorem canonical_fitPath_iff (hEven : path.length % 2 = 0) (hMode : 0 ≤ mode ∧ mode ≤ 2) :
    Canonical (fitPath path len mode) ↔ Repairable path len mode := by
  have hSign : 0 ≤ len * (mode + 1) ↔ 0 ≤ len := mul_nonneg_iff_of_pos_right (by omega)
  simp only [fitPath, Repairable, Ragged]
  split_ifs with hEmpty hLong hShort
  · simp [canonical_iff hMode, hEmpty]
  · have hCut : ((path.take (len * (mode + 1) * 2).toNat).length : Int) =
        2 * (len * (mode + 1)) := by
      rw [List.length_take]
      omega
    rw [canonical_iff hMode, and_iff_left (.inr hCut)]
    constructor
    · intro hLen
      exact .inl ⟨hLen, fun hRagged => by omega⟩
    · rintro (⟨hLen, -⟩ | ⟨hLarge, -, hWhole, hHops⟩)
      · exact hLen
      · -- 63 hops or fewer are not more than the length says
        have hBytes := Int.ediv_mul_cancel (Int.dvd_of_emod_eq_zero hWhole)
        nlinarith
  · have hHops := Int.ediv_mul_cancel (Int.dvd_of_emod_eq_zero hShort.2.2)
    have hBelow : (path.length / 2 : Int) / (mode + 1) < len :=
      Int.ediv_lt_of_lt_mul hShort.2.1 hShort.1
    have hNonneg : 0 ≤ (path.length / 2 : Int) / (mode + 1) := Int.ediv_nonneg (by omega) (by omega)
    rw [canonical_iff hMode, and_iff_left (.inr (by rw [hHops]; omega))]
    constructor
    · intro hLen
      by_cases hLarge : 63 < len
      · exact .inr ⟨hLarge, hEmpty, hShort.2.2, hLen.2⟩
      · exact .inl ⟨by omega, fun hRagged => hRagged.2 hShort.2.2⟩
    · rintro (⟨hLen, -⟩ | ⟨-, -, -, hLen⟩)
      · omega
      · exact ⟨hNonneg, hLen⟩
  · rw [canonical_iff hMode, or_iff_right hEmpty]
    constructor
    · rintro ⟨hLen, hExact⟩
      exact .inl ⟨hLen, fun hRagged => by omega⟩
    · rintro (⟨hLen, hWhole⟩ | ⟨hLarge, -, hWhole, hHops⟩)
      · have hExact : (path.length / 2 : Int) = len * (mode + 1) := by
          by_contra hOther
          exact hWhole ⟨by omega, fun hHops => hShort ⟨by omega, by omega, hHops⟩⟩
        exact ⟨hLen, by omega⟩
      · have hBytes := Int.ediv_mul_cancel (Int.dvd_of_emod_eq_zero hWhole)
        exact absurd ⟨by nlinarith, by omega, hWhole⟩ hShort

/-- A route that is canonical is left alone. -/
theorem normalizeContactRoute_of_canonical {r : ContactRoute} (h : Canonical r) :
    normalizeContactRoute (some r.path) (some r.len) (some r.hashMode) = r := by
  rcases h with rfl | ⟨hLen, hMode, hPath⟩
  · decide
  have hUnpack : unpackLen r.len (some r.hashMode) = some (r.len, some r.hashMode) := by
    rw [unpackLen, if_neg (by omega), if_neg (by omega)]
  have hKnown : knownMode (some r.hashMode) = r.hashMode := if_pos hMode
  simp only [normalizeContactRoute, Option.getD_some, hUnpack, hKnown, fitPath]
  rcases hPath with hEmpty | hExact
  · rw [if_pos hEmpty]
  · rw [if_neg (by omega : ¬((r.len * (r.hashMode + 1) < (r.path.length : Int) / 2) ∧ _)),
      if_neg (by omega : ¬(((r.path.length : Int) / 2 < r.len * (r.hashMode + 1)) ∧ _)), ite_self]

/-- A canonical route that normalizing leaves as it is. -/
def Settled (r : ContactRoute) : Prop :=
  Canonical r ∧ normalizeContactRoute (some r.path) (some r.len) (some r.hashMode) = r

/-- The result is canonical, and normalizing it again changes nothing, if and only if the stored
length marks a flood route, or the path and the length that it stands for can be brought
together. -/
theorem normalizeContactRoute_canonical_iff (pathHex : Option Text)
    (pathLen pathHashMode : Option Int) (hEven : (pathHex.getD []).length % 2 = 0) :
    Settled (normalizeContactRoute pathHex pathLen pathHashMode) ↔
      ∀ len mode, unpackLen (pathLen.getD (-1)) pathHashMode = some (len, mode) →
        Repairable (pathHex.getD []) len (knownMode mode) := by
  unfold Settled
  rw [and_iff_left_of_imp normalizeContactRoute_of_canonical]
  unfold normalizeContactRoute
  split
  next hUnpack =>
    refine iff_of_true (.inl rfl) fun len mode hSome => ?_
    cases hUnpack.symm.trans hSome
  next len mode hUnpack =>
    rw [canonical_fitPath_iff hEven (knownMode_bounds mode)]
    constructor
    · intro hRepairable len' mode' hSome
      cases hUnpack.symm.trans hSome
      exact hRepairable
    · intro hAll
      exact hAll len mode hUnpack

/-- The byte `0x83`, stored with its sign, is three hops of three bytes. -/
theorem normalizeContactRoute_canonical_signed :
    let r := normalizeContactRoute (some (List.replicate 20 'a')) (some (-125)) none
    r = ⟨List.replicate 18 'a', 3, 2⟩ ∧ Settled r := by
  intro r
  refine ⟨by decide, (normalizeContactRoute_canonical_iff _ _ _ (by decide)).mpr ?_⟩
  intro len mode hUnpack
  have hPair : some (3, some 2) = some (len, mode) := hUnpack
  cases hPair
  simp [Repairable, Ragged, knownMode]

/-- The byte `0xC0` stays as a length of 192; three bytes stay beside two hops of two bytes. -/
theorem normalizeContactRoute_not_canonical :
    ¬Canonical (normalizeContactRoute none (some 192) none) ∧
      ¬Canonical (normalizeContactRoute (some "aabbcc".toList) (some 2) (some 1)) := by
  constructor
  · rintro (h | ⟨h, -⟩) <;> revert h <;> decide
  · rintro (h | ⟨-, -, h⟩) <;> revert h <;> decide

end ContactRoute

end RemoteTerm.Radio
