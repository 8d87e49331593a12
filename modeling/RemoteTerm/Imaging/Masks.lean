import Mathlib.Data.Fin.VecNotation
import Mathlib.Data.Fintype.Basic
import Mathlib.Algebra.Ring.Int.Defs

/-!
# The four checkerboard masks

The latent of a picture is coded in four stages (`AeicMaskSet` and `decode_to_latent` of
`app/imaging/aeic/entropy.py`). A stage codes, at each place of the plane, the channels of one of
four groups: which one depends on the parities of row and column and on the stage.

Tensors are the flat lists of their elements, a group after the other. Elements are of any type
with a zero that addition leaves alone up to `Same`: for 32-bit floats, the equality of numbers.
-/

namespace RemoteTerm.Imaging

open List

/-! ## Elements -/

class Element (F : Type) extends Zero F, Add F where
  Same : F → F → Prop
  same_refl : ∀ x, Same x x
  same_trans : ∀ {x y z}, Same x y → Same y z → Same x z
  same_add : ∀ {x x' y y'}, Same x x' → Same y y' → Same (x + y) (x' + y')
  same_add_zero : ∀ x, Same (x + 0) x
  same_zero_add : ∀ x, Same (0 + x) x

instance : Element Int where
  Same := Eq
  same_refl := Eq.refl
  same_trans := Eq.trans
  same_add h h' := by rw [h, h']
  same_add_zero := Int.add_zero
  same_zero_add := Int.zero_add

/-! ## Shapes -/

structure AeicGeometry where
  yChannels : Nat
  yHeight : Nat
  yWidth : Nat
  deriving DecidableEq, Repr

namespace AeicGeometry

variable (g : AeicGeometry)

def squeezedChannels : Nat := g.yChannels / 4

def yElements : Nat := g.yChannels * g.yHeight * g.yWidth

def symbolsPerStage : Nat := g.squeezedChannels * g.yHeight * g.yWidth

end AeicGeometry

inductive TensorError where
  | wrongSize (expected size : Nat)
  | reshape (size : Nat)
  deriving DecidableEq, Repr

/-! ## Masks -/

def stagePermutation : Fin 4 → BitVec 8 := ![0, 3, 2, 1]

/-- Which of the four places of its two by two square; the coordinates are 8-bit
integers. -/
def posMicro (y x : Nat) : BitVec 8 := ((BitVec.ofNat 8 y &&& 1) <<< 1) ||| (BitVec.ofNat 8 x &&& 1)

def liveGroupMap (stage : Fin 4) (y x : Nat) : BitVec 8 := posMicro y x ^^^ stagePermutation stage

/-- One group after the other. -/
def joined {F : Type} (parts : Fin 4 → List F) : List F :=
  parts 0 ++ parts 1 ++ (parts 2 ++ parts 3)

namespace AeicGeometry

variable (g : AeicGeometry) {F : Type}

/-- Whether the mask of the stage has the group at a place, counted within the group. -/
def isLive (stage group : Fin 4) (j : Nat) : Bool :=
  liveGroupMap stage (j / g.yWidth % g.yHeight) (j % g.yWidth) = BitVec.ofNat 8 group

/-- The elements of a group: `live` where the mask is live, and else `rest`. -/
def selectLive (stage group : Fin 4) (live rest : List F) : List F :=
  (live.zip rest).mapIdx fun j e => if g.isLive stage group j then e.1 else e.2

/-- View as four groups. -/
def grouped (full : List F) : Except TensorError (Fin 4 → List F) :=
  if full.length = 4 * g.symbolsPerStage then
    .ok fun group => (full.drop (group * g.symbolsPerStage)).take g.symbolsPerStage
  else .error (.reshape full.length)

/-- Four groups as one tensor. -/
def ungrouped (parts : Fin 4 → List F) : Except TensorError (List F) :=
  if 4 * g.symbolsPerStage = g.yElements then .ok (joined parts)
  else .error (.reshape (4 * g.symbolsPerStage))

def maskTensor (stage : Fin 4) : Except TensorError (List Nat) :=
  g.ungrouped fun group =>
    g.selectLive stage group (replicate g.symbolsPerStage 1)
      (replicate g.symbolsPerStage 0)

section

variable [Element F]

def zeros : List F := replicate g.symbolsPerStage 0

def squeeze (full : List F) : Except TensorError (List F) :=
  if full.length ≠ g.yElements then .error (.wrongSize g.yElements full.length)
  else
    (g.grouped full).map fun v =>
      zipWith (· + ·) (zipWith (· + ·) (v 0) (v 1)) (zipWith (· + ·) (v 2) (v 3))

def unsqueeze (squeezed : List F) (stage : Fin 4) : Except TensorError (List F) :=
  if squeezed.length ≠ g.symbolsPerStage then .error (.wrongSize g.symbolsPerStage squeezed.length)
  else g.ungrouped fun group => g.selectLive stage group squeezed g.zeros

def applyMask (full : List F) (stage : Fin 4) : Except TensorError (List F) :=
  (g.grouped full).bind fun v =>
    g.ungrouped fun group => g.selectLive stage group (v group) g.zeros

def mergeContext (base stageLatent : List F) (stage : Fin 4) : Except TensorError (List F) :=
  if base.length ≠ g.yElements then .error (.reshape base.length)
  else
    (g.grouped base).bind fun out => (g.grouped stageLatent).bind fun src =>
      g.ungrouped fun group => g.selectLive stage group (src group) (out group)

/-- The merges of `decode_to_latent`, for latents that are known. -/
def mergeStages (base : List F) (latents : Fin 4 → List F) : Except TensorError (List F) :=
  [0, 1, 2, 3].foldlM (fun base stage => do
    let stageLatent ← g.unsqueeze (latents stage) stage
    g.mergeContext base stageLatent stage) base

end

end AeicGeometry

/-! ## One group live at each place -/

theorem and_one_eq (n : Nat) : BitVec.ofNat 8 n &&& 1 = BitVec.ofNat 8 (n % 2) := by
  apply BitVec.eq_of_toNat_eq
  simp only [BitVec.toNat_and, BitVec.toNat_ofNat]
  rw [show (1 : BitVec 8).toNat = 1 from rfl, Nat.and_one_is_mod]
  omega

theorem posMicro_eq (y x : Nat) : posMicro y x = BitVec.ofNat 8 (y % 2 * 2 + x % 2) := by
  unfold posMicro
  rw [and_one_eq, and_one_eq]
  rcases Nat.mod_two_eq_zero_or_one y with hy | hy <;>
    rcases Nat.mod_two_eq_zero_or_one x with hx | hx <;>
      rw [hy, hx] <;> rfl

theorem exists_place (y x : Nat) :
    ∃ p : Fin 4, ∀ stage, liveGroupMap stage y x = BitVec.ofNat 8 p ^^^ stagePermutation stage := by
  refine ⟨⟨y % 2 * 2 + x % 2, by omega⟩, fun stage => ?_⟩
  rw [liveGroupMap, posMicro_eq]

theorem exists_stage (group : Fin 4) (y x : Nat) :
    ∃! stage, liveGroupMap stage y x = BitVec.ofNat 8 group := by
  have hAll : ∀ (p : Fin 4) (group : Fin 4),
      ∃ stage, BitVec.ofNat 8 p ^^^ stagePermutation stage = BitVec.ofNat 8 group ∧
        ∀ stage', BitVec.ofNat 8 p ^^^ stagePermutation stage' = BitVec.ofNat 8 group →
          stage' = stage := by decide
  obtain ⟨p, hp⟩ := exists_place y x
  simp only [hp]
  exact hAll p group

theorem exists_group (stage : Fin 4) (y x : Nat) :
    ∃! group : Fin 4, liveGroupMap stage y x = BitVec.ofNat 8 group := by
  have hAll : ∀ (p : Fin 4) (stage : Fin 4),
      ∃ group : Fin 4, BitVec.ofNat 8 p ^^^ stagePermutation stage = BitVec.ofNat 8 group ∧
        ∀ group' : Fin 4, BitVec.ofNat 8 p ^^^ stagePermutation stage = BitVec.ofNat 8 group' →
          group' = group := by decide
  obtain ⟨p, hp⟩ := exists_place y x
  simp only [hp]
  exact hAll p stage

namespace AeicGeometry

variable {g : AeicGeometry} {F : Type} {j : Nat} {stage group : Fin 4}

theorem isLive_stage_unique {stage' : Fin 4} (h : g.isLive stage group j = true)
    (h' : g.isLive stage' group j = true) : stage = stage' :=
  (exists_stage group _ _).unique (of_decide_eq_true h) (of_decide_eq_true h')

theorem isLive_group_unique {group' : Fin 4} (h : g.isLive stage group j = true)
    (h' : g.isLive stage group' j = true) : group = group' :=
  (exists_group stage _ _).unique (of_decide_eq_true h) (of_decide_eq_true h')

theorem exists_isLive_stage (group : Fin 4) (j : Nat) : ∃ stage, g.isLive stage group j = true := by
  obtain ⟨stage, hStage, -⟩ := exists_stage group (j / g.yWidth % g.yHeight) (j % g.yWidth)
  exact ⟨stage, decide_eq_true hStage⟩

theorem exists_isLive_group (stage : Fin 4) (j : Nat) : ∃ group, g.isLive stage group j = true := by
  obtain ⟨group, hGroup, -⟩ := exists_group stage (j / g.yWidth % g.yHeight) (j % g.yWidth)
  exact ⟨group, decide_eq_true hGroup⟩

/-! ## Selecting -/

@[simp]
theorem length_selectLive (stage group : Fin 4) (live rest : List F) :
    (g.selectLive stage group live rest).length = min live.length rest.length := by
  simp only [selectLive, length_mapIdx, length_zip]

theorem getElem?_selectLive {live rest : List F}
    (h : live.length = rest.length) (j : Nat) : (g.selectLive stage group live rest)[j]? =
      if g.isLive stage group j then live[j]? else rest[j]? := by
  by_cases hj : j < live.length
  · have hZip : j < (live.zip rest).length := by
      rw [length_zip]
      omega
    simp only [selectLive, getElem?_mapIdx, getElem?_eq_getElem hZip, getElem_zip,
      Option.map_some, getElem?_eq_getElem hj, getElem?_eq_getElem (h ▸ hj : j < rest.length)]
    split
    · rfl
    · rfl
  · have hNone : (g.selectLive stage group live rest)[j]? = none := by
      apply getElem?_eq_none
      rw [length_selectLive]
      omega
    rw [hNone, getElem?_eq_none (Nat.le_of_not_lt hj),
      getElem?_eq_none (h ▸ Nat.le_of_not_lt hj), ite_self]

section

variable {a b c : List F}

theorem selectLive_congr (hc : a.length = c.length) (hb : a.length = b.length)
    (h : ∀ j, g.isLive stage group j = true → a[j]? = b[j]?) :
    g.selectLive stage group a c = g.selectLive stage group b c := by
  apply ext_getElem?
  intro j
  rw [getElem?_selectLive hc, getElem?_selectLive (hb.symm.trans hc)]
  split
  next hLive => exact h j hLive
  · rfl

theorem selectLive_selectLive (hb : a.length = b.length) (hc : a.length = c.length) :
    g.selectLive stage group (g.selectLive stage group a b) c = g.selectLive stage group a c := by
  have hLength : (g.selectLive stage group a b).length = a.length := by
    rw [length_selectLive, ← hb, Nat.min_self]
  apply selectLive_congr (hLength.trans hc) hLength
  intro j hLive
  rw [getElem?_selectLive hb, if_pos hLive]

end

/-! ## Groups -/

theorem four_symbolsPerStage (hGroups : 4 ∣ g.yChannels) : 4 * g.symbolsPerStage = g.yElements := by
  unfold symbolsPerStage yElements squeezedChannels
  rw [← Nat.mul_assoc, ← Nat.mul_assoc, Nat.mul_div_cancel' hGroups]

/-- Every list has the elements of a group. -/
def Sized (g : AeicGeometry) (parts : Fin 4 → List F) : Prop :=
  ∀ group, (parts group).length = g.symbolsPerStage

variable {parts : Fin 4 → List F}

theorem length_joined (hParts : g.Sized parts) : (joined parts).length = 4 * g.symbolsPerStage := by
  simp only [joined, length_append, hParts _]
  omega

theorem ungrouped_eq (hGroups : 4 ∣ g.yChannels) : g.ungrouped parts = .ok (joined parts) :=
  if_pos (four_symbolsPerStage hGroups)

theorem grouped_joined (hParts : g.Sized parts) : g.grouped (joined parts) = .ok parts := by
  have hTwo : (parts 0 ++ parts 1).length = 2 * g.symbolsPerStage := by
    rw [length_append, hParts, hParts]
    omega
  unfold grouped
  rw [if_pos (length_joined hParts)]
  congr 1
  funext group
  match group with
  | 0 =>
    show ((parts 0 ++ parts 1 ++ (parts 2 ++ parts 3)).drop (0 * _)).take _ = _
    rw [Nat.zero_mul, drop_zero, append_assoc, ← hParts 0, take_left]
  | 1 =>
    show ((parts 0 ++ parts 1 ++ (parts 2 ++ parts 3)).drop (1 * _)).take _ = _
    rw [Nat.one_mul, append_assoc, drop_left' (hParts 0), ← hParts 1, take_left]
  | 2 =>
    show ((parts 0 ++ parts 1 ++ (parts 2 ++ parts 3)).drop (2 * _)).take _ = _
    rw [drop_left' hTwo, ← hParts 2, take_left]
  | 3 =>
    show ((parts 0 ++ parts 1 ++ (parts 2 ++ parts 3)).drop (3 * _)).take _ = _
    rw [show 3 * g.symbolsPerStage = 2 * g.symbolsPerStage + g.symbolsPerStage by omega,
      ← drop_drop, drop_left' hTwo, drop_left' (hParts 2), ← hParts 3, take_length]

theorem exists_joined {full : List F} (hGroups : 4 ∣ g.yChannels)
    (hFull : full.length = g.yElements) :
    ∃ parts : Fin 4 → List F, g.Sized parts ∧ full = joined parts := by
  rw [← four_symbolsPerStage hGroups] at hFull
  refine ⟨fun group => (full.drop (group * g.symbolsPerStage)).take g.symbolsPerStage, fun group =>
    ?_, ?_⟩
  · have hGroup : group.val * g.symbolsPerStage ≤ 3 * g.symbolsPerStage :=
      Nat.mul_le_mul_right _ (by omega)
    rw [length_take, length_drop]
    omega
  · generalize g.symbolsPerStage = n at hFull
    have hCut : ∀ k, full.drop (k * n) = (full.drop (k * n)).take n ++ full.drop ((k + 1) * n) := by
      intro k
      rw [Nat.succ_mul, ← drop_drop, take_append_drop]
    have hLast : full.drop (3 * n) = (full.drop (3 * n)).take n := by
      rw [take_of_length_le]
      rw [length_drop]
      omega
    calc full = full.drop (0 * n) := by rw [Nat.zero_mul, drop_zero]
      _ = (full.drop (0 * n)).take n ++ full.drop (1 * n) := hCut 0
      _ = (full.drop (0 * n)).take n ++ ((full.drop (1 * n)).take n ++ full.drop (2 * n)) :=
        congrArg _ (hCut 1)
      _ = (full.drop (0 * n)).take n ++ (full.drop (1 * n)).take n ++
          ((full.drop (2 * n)).take n ++ full.drop (3 * n)) := by
        rw [← hCut 2, append_assoc]
      _ = (full.drop (0 * n)).take n ++ (full.drop (1 * n)).take n ++
          ((full.drop (2 * n)).take n ++ (full.drop (3 * n)).take n) := by
        rw [← hLast]

/-! ## Merging the stages -/

/-- Each stage's latent where it is live; what is left is live in the first stage. -/
def merged (g : AeicGeometry) (latents : Fin 4 → List F) (group : Fin 4) : List F :=
  g.selectLive 3 group (latents 3) (g.selectLive 2 group (latents 2)
    (g.selectLive 1 group (latents 1) (latents 0)))

variable {latents : Fin 4 → List F}

theorem Sized.selectLive {latent rest : Fin 4 → List F} (hLatent : g.Sized latent)
    (hRest : g.Sized rest) : g.Sized fun group =>
      g.selectLive stage group (latent group) (rest group) := by
  intro group
  show length _ = _
  rw [length_selectLive, hLatent, hRest, Nat.min_self]

theorem Sized.merged (hLatents : g.Sized latents) : g.Sized (g.merged latents) :=
  have hAll (stage : Fin 4) : g.Sized fun _ => latents stage := fun _ => hLatents stage
  (hAll 3).selectLive ((hAll 2).selectLive ((hAll 1).selectLive (hAll 0)))

/-- Over lists that hold the first stage's latent at its live places. -/
theorem getElem?_selectLives (hLatents : g.Sized latents) {rest : List F}
    (hRest : rest.length = g.symbolsPerStage)
    (hLive : g.isLive stage group j = true) (hFirst : stage = 0 → rest[j]? = (latents 0)[j]?) :
    (g.selectLive 3 group (latents 3) (g.selectLive 2 group (latents 2)
      (g.selectLive 1 group (latents 1) rest)))[j]? = (latents stage)[j]? := by
  have hOther : ∀ stage', stage' ≠ stage → ¬g.isLive stage' group j = true :=
    fun stage' hNe hLive' => hNe (isLive_stage_unique hLive' hLive)
  have h₁ : (g.selectLive 1 group (latents 1) rest).length = g.symbolsPerStage := by
    rw [length_selectLive, hLatents, hRest, Nat.min_self]
  rw [getElem?_selectLive (by rw [length_selectLive, h₁, hLatents, hLatents, Nat.min_self]),
    getElem?_selectLive ((hLatents 2).trans h₁.symm),
      getElem?_selectLive ((hLatents 1).trans hRest.symm)]
  match stage with
  | 0 =>
    rw [if_neg (hOther 3 (by decide)), if_neg (hOther 2 (by decide)), if_neg (hOther 1 (by decide)),
      hFirst rfl]
  | 1 => rw [if_neg (hOther 3 (by decide)), if_neg (hOther 2 (by decide)), if_pos hLive]
  | 2 => rw [if_neg (hOther 3 (by decide)), if_pos hLive]
  | 3 => rw [if_pos hLive]

theorem getElem?_merged (hLatents : g.Sized latents)
    (hLive : g.isLive stage group j = true) : (g.merged latents group)[j]? = (latents stage)[j]? :=
  getElem?_selectLives hLatents (hLatents 0) hLive fun _ => rfl

theorem mergeContext_joined (hGroups : 4 ∣ g.yChannels) {latent : Fin 4 → List F}
    (hParts : g.Sized parts) (hLatent : g.Sized latent) :
    g.mergeContext (joined parts) (joined latent) stage =
      .ok (joined fun group => g.selectLive stage group (latent group) (parts group)) := by
  have hSize := (length_joined hParts).trans (four_symbolsPerStage hGroups)
  unfold mergeContext
  rw [if_neg (not_not.mpr hSize), grouped_joined hParts, grouped_joined hLatent]
  exact ungrouped_eq hGroups

section

variable [Element F]

theorem length_zeros : (g.zeros : List F).length = g.symbolsPerStage := length_replicate

variable {squeezed : List F}

theorem length_unsqueezed (hSize : squeezed.length = g.symbolsPerStage) (group : Fin 4) :
    (g.selectLive stage group squeezed g.zeros).length = g.symbolsPerStage := by
  rw [length_selectLive, length_zeros, hSize, Nat.min_self]

theorem same_sum {x : F} {v : Fin 4 → F} (group : Fin 4) (hLive : v group = x)
    (hRest : ∀ group', group' ≠ group → v group' = 0) :
    Element.Same ((v 0 + v 1) + (v 2 + v 3)) x := by
  have hZero : Element.Same ((0 : F) + 0) 0 := Element.same_add_zero 0
  match group with
  | 0 =>
    rw [hLive, hRest 1 (by decide), hRest 2 (by decide), hRest 3 (by decide)]
    exact Element.same_trans (Element.same_add (Element.same_add_zero x) hZero)
      (Element.same_add_zero x)
  | 1 =>
    rw [hLive, hRest 0 (by decide), hRest 2 (by decide), hRest 3 (by decide)]
    exact Element.same_trans (Element.same_add (Element.same_zero_add x) hZero)
      (Element.same_add_zero x)
  | 2 =>
    rw [hLive, hRest 0 (by decide), hRest 1 (by decide), hRest 3 (by decide)]
    exact Element.same_trans (Element.same_add hZero (Element.same_add_zero x))
      (Element.same_zero_add x)
  | 3 =>
    rw [hLive, hRest 0 (by decide), hRest 1 (by decide), hRest 2 (by decide)]
    exact Element.same_trans (Element.same_add hZero (Element.same_zero_add x))
      (Element.same_zero_add x)

variable (hGroups : 4 ∣ g.yChannels)
include hGroups

theorem squeeze_joined (hParts : g.Sized parts) : g.squeeze (joined parts) =
      .ok (zipWith (· + ·) (zipWith (· + ·) (parts 0) (parts 1))
        (zipWith (· + ·) (parts 2) (parts 3))) := by
  have hSize := (length_joined hParts).trans (four_symbolsPerStage hGroups)
  unfold squeeze
  rw [if_neg (not_not.mpr hSize), grouped_joined hParts]
  rfl

theorem unsqueeze_eq (hSize : squeezed.length = g.symbolsPerStage) :
    g.unsqueeze squeezed stage = .ok (joined fun group =>
      g.selectLive stage group squeezed g.zeros) := by
  unfold unsqueeze
  rw [if_neg (not_not.mpr hSize), ungrouped_eq hGroups]

theorem applyMask_joined (hParts : g.Sized parts) : g.applyMask (joined parts) stage =
      .ok (joined fun group => g.selectLive stage group (parts group) g.zeros) := by
  unfold applyMask
  rw [grouped_joined hParts]
  exact ungrouped_eq hGroups

theorem mergeStage_joined (hParts : g.Sized parts) (hSize : squeezed.length = g.symbolsPerStage) :
    (do let stageLatent ← g.unsqueeze squeezed stage
        g.mergeContext (joined parts) stageLatent stage) =
      .ok (joined fun group => g.selectLive stage group squeezed (parts group)) := by
  have hSelect : (fun group => g.selectLive stage group (g.selectLive stage group squeezed g.zeros)
      (parts group)) = fun group => g.selectLive stage group squeezed (parts group) := by
    funext group
    exact selectLive_selectLive (hSize.trans length_zeros.symm) (hSize.trans (hParts group).symm)
  rw [unsqueeze_eq hGroups hSize]
  show g.mergeContext _ _ _ = _
  rw [mergeContext_joined hGroups hParts (length_unsqueezed hSize), hSelect]

theorem mergeStages_eq {base : List F} (hBase : base.length = g.yElements)
    (hLatents : g.Sized latents) :
    g.mergeStages base latents = .ok (joined (g.merged latents)) := by
  obtain ⟨parts, hParts, rfl⟩ := exists_joined hGroups hBase
  have hAll (stage : Fin 4) : g.Sized fun _ => latents stage := fun _ => hLatents stage
  have h₀ := @Sized.selectLive _ _ 0 _ _ (hAll 0) hParts
  have h₁ := @Sized.selectLive _ _ 1 _ _ (hAll 1) h₀
  have h₂ := @Sized.selectLive _ _ 2 _ _ (hAll 2) h₁
  have hMerged : (fun group => g.selectLive 3 group (latents 3) (g.selectLive 2 group (latents 2)
      (g.selectLive 1 group (latents 1) (g.selectLive 0 group (latents 0) (parts group))))) =
      g.merged latents := by
    funext group
    apply ext_getElem?
    intro j
    obtain ⟨stage, hLive⟩ := exists_isLive_stage (g := g) group j
    rw [getElem?_merged hLatents hLive]
    refine getElem?_selectLives hLatents (h₀ group) hLive fun hStage => ?_
    rw [getElem?_selectLive ((hLatents 0).trans (hParts group).symm), if_pos (hStage ▸ hLive)]
  unfold mergeStages
  rw [foldlM_cons, mergeStage_joined hGroups hParts (hLatents 0)]
  show foldlM _ _ _ = _
  rw [foldlM_cons, mergeStage_joined hGroups h₀ (hLatents 1)]
  show foldlM _ _ _ = _
  rw [foldlM_cons, mergeStage_joined hGroups h₁ (hLatents 2)]
  show foldlM _ _ _ = _
  rw [foldlM_cons, mergeStage_joined hGroups h₂ (hLatents 3), hMerged]
  rfl

theorem applyMask_merged (hLatents : g.Sized latents) :
    g.applyMask (joined (g.merged latents)) stage = g.unsqueeze (latents stage) stage := by
  rw [applyMask_joined hGroups (hLatents.merged), unsqueeze_eq hGroups (hLatents stage)]
  congr 2
  funext group
  apply selectLive_congr
  · rw [hLatents.merged, length_zeros]
  · rw [hLatents.merged, hLatents]
  · exact fun j hLive => getElem?_merged hLatents hLive

/-! ## Squeezing what was unsqueezed -/

theorem squeeze_unsqueeze (hSize : squeezed.length = g.symbolsPerStage) :
    ∃ full out, g.unsqueeze squeezed stage = .ok full ∧ g.squeeze full = .ok out ∧
      List.Forall₂ Element.Same out squeezed := by
  have hParts : ∀ group, (g.selectLive stage group squeezed g.zeros).length = g.symbolsPerStage :=
    length_unsqueezed hSize
  refine ⟨_, _, unsqueeze_eq hGroups hSize, squeeze_joined hGroups hParts, ?_⟩
  rw [forall₂_iff_get]
  refine ⟨by simp only [length_zipWith, hParts, hSize, Nat.min_self], fun j hj hj' => ?_⟩
  obtain ⟨group, hLive⟩ := exists_isLive_group (g := g) stage j
  have hGet : ∀ (group' : Fin 4) (h : j < (g.selectLive stage group' squeezed g.zeros).length),
      (g.selectLive stage group' squeezed g.zeros)[j] =
        if g.isLive stage group' j then squeezed[j] else 0 := by
    intro group' h
    apply Option.some.inj
    rw [← getElem?_eq_getElem h, getElem?_selectLive (hSize.trans length_zeros.symm),
      getElem?_eq_getElem hj']
    split
    · rfl
    · rw [zeros, getElem?_replicate, if_pos (hSize ▸ hj')]
  simp only [get_eq_getElem, getElem_zipWith, hGet]
  apply same_sum (v := fun group' => if g.isLive stage group' j then squeezed[j] else 0) group
  · exact if_pos hLive
  · intro group' hOther
    exact if_neg fun hLive' => hOther (isLive_group_unique hLive' hLive)

end

/-! ## The masks cover the latent -/

theorem getElem?_joined (hParts : g.Sized parts) (hj : j < g.symbolsPerStage) :
    (joined parts)[group * g.symbolsPerStage + j]? = (parts group)[j]? := by
  have hGrouped := grouped_joined hParts
  unfold grouped at hGrouped
  rw [if_pos (length_joined hParts)] at hGrouped
  have hPart := congrFun (Except.ok.inj hGrouped) group
  rw [← hPart, getElem?_take, if_pos hj, getElem?_drop]

theorem maskTensor_eq_one (hGroups : 4 ∣ g.yChannels) (hj : j < g.symbolsPerStage) :
    (∃ mask, g.maskTensor stage = .ok mask ∧ mask[group * g.symbolsPerStage + j]? = some 1) ↔
      g.isLive stage group j = true := by
  have hParts : ∀ group, (g.selectLive stage group (replicate g.symbolsPerStage 1)
      (replicate g.symbolsPerStage 0)).length = g.symbolsPerStage := by
    intro group
    simp only [length_selectLive, length_replicate, Nat.min_self]
  have hLengths : (replicate g.symbolsPerStage 1).length =
      (replicate g.symbolsPerStage 0).length := by
    simp only [length_replicate]
  unfold maskTensor
  rw [ungrouped_eq hGroups]
  simp only [Except.ok.injEq, exists_eq_left', getElem?_joined hParts hj,
    getElem?_selectLive hLengths, getElem?_replicate, if_pos hj]
  cases g.isLive stage group j with
  | true => simp only [if_true]
  | false => simp only [Bool.false_eq_true, if_false, Option.some.injEq, Nat.zero_ne_one]

theorem maskTensor_exists_unique (hGroups : 4 ∣ g.yChannels) {i : Nat} (hi : i < g.yElements) :
    ∃! stage, ∃ mask, g.maskTensor stage = .ok mask ∧ mask[i]? = some 1 := by
  rw [← four_symbolsPerStage hGroups] at hi
  have hPos : 0 < g.symbolsPerStage := by omega
  have hj : i % g.symbolsPerStage < g.symbolsPerStage := Nat.mod_lt _ hPos
  have hGroup : i / g.symbolsPerStage < 4 := Nat.div_lt_of_lt_mul (by rwa [Nat.mul_comm])
  obtain ⟨stage, hLive⟩ := exists_isLive_stage (g := g) ⟨_, hGroup⟩ (i % g.symbolsPerStage)
  have hPlace : (⟨i / g.symbolsPerStage, hGroup⟩ : Fin 4) * g.symbolsPerStage +
      i % g.symbolsPerStage = i := by
    rw [Nat.mul_comm]
    exact Nat.div_add_mod i g.symbolsPerStage
  rw [← hPlace]
  refine ⟨stage, (maskTensor_eq_one hGroups hj).mpr hLive, fun stage' hMask => ?_⟩
  exact isLive_stage_unique ((maskTensor_eq_one hGroups hj).mp hMask) hLive

end AeicGeometry

/-- **Partition.** With the channels in four equal groups, and for every height and width:
each place of the latent is in the mask of exactly one stage; squeezing what a stage has
unsqueezed gives it back; and merging the latents of the four stages in their order over
any base leaves nothing of the base, while mask and squeeze take each stage's latent out of
the result. -/
theorem masks_partition {F : Type} [Element F] (g : AeicGeometry) (hGroups : 4 ∣ g.yChannels) :
    (∀ i < g.yElements, ∃! stage, ∃ mask, g.maskTensor stage = .ok mask ∧ mask[i]? = some 1) ∧
    (∀ (stage : Fin 4) (latent : List F), latent.length = g.symbolsPerStage →
      ∃ full out, g.unsqueeze latent stage = .ok full ∧ g.squeeze full = .ok out ∧
        List.Forall₂ Element.Same out latent) ∧
    ∀ latents : Fin 4 → List F, (∀ stage, (latents stage).length = g.symbolsPerStage) →
      ∃ yHat, (∀ base, base.length = g.yElements → g.mergeStages base latents = .ok yHat) ∧
        ∀ stage, ∃ masked out, g.applyMask yHat stage = .ok masked ∧ g.squeeze masked = .ok out ∧
          List.Forall₂ Element.Same out (latents stage) := by
  refine ⟨fun i hi => AeicGeometry.maskTensor_exists_unique hGroups hi,
    fun stage latent hSize => AeicGeometry.squeeze_unsqueeze hGroups hSize, fun latents hLatents =>
      ?_⟩
  refine ⟨_, fun base hBase => AeicGeometry.mergeStages_eq hGroups hBase hLatents, fun stage => ?_⟩
  rw [AeicGeometry.applyMask_merged hGroups hLatents]
  exact AeicGeometry.squeeze_unsqueeze hGroups (hLatents stage)

/-- A latent of one channel a group, one row and three columns. -/
theorem masks_partition_small : ∃ yHat, (∀ base : List Int, base.length = 12 →
        AeicGeometry.mergeStages ⟨4, 1, 3⟩ base ![[1, 2, 3], [4, 5, 6], [7, 8, 9], [10, 11, 12]] =
          .ok yHat) ∧
      ∀ stage, ∃ masked out, AeicGeometry.applyMask ⟨4, 1, 3⟩ yHat stage = .ok masked ∧
        AeicGeometry.squeeze ⟨4, 1, 3⟩ masked = .ok out ∧
        List.Forall₂ Element.Same out ((![[1, 2, 3], [4, 5, 6], [7, 8, 9], [10, 11, 12]] :
        Fin 4 → List Int) stage) :=
  (masks_partition ⟨4, 1, 3⟩ (by decide)).2.2 _ (by decide)

end RemoteTerm.Imaging
