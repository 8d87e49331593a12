import Mathlib.Data.List.Perm.Basic

/-!
# Parity

An operation that is associative, commutative and undoes itself, such as the exclusive or.
-/

namespace RemoteTerm.Foundation

open List

section

variable {α : Type} {op : α → α → α} {e : α} [Std.Associative op] [Std.LawfulIdentity op e]

theorem foldl_eq_op_foldl (a : α) (l : List α) : l.foldl op a = op a (l.foldl op e) := by
  have hRight : op a e = a := Std.LawfulRightIdentity.right_id a
  calc l.foldl op a = l.foldl op (op a e) := by rw [hRight]
    _ = op a (l.foldl op e) := foldl_assoc

variable [Std.Commutative op]

/-- What all elements of a list join to, joined with all elements but one, is that one. -/
theorem foldl_missing (hSelf : ∀ a, op a a = e) {all rest : List α} {missing : α}
    (hAll : (missing :: rest).Perm all) : rest.foldl op (all.foldl op e) = missing := by
  have hLeft : op e missing = missing := Std.LawfulLeftIdentity.left_id missing
  have hRight : op missing e = missing := Std.LawfulRightIdentity.right_id missing
  have hJoin : all.foldl op e = op missing (rest.foldl op e) := by
    rw [← hAll.foldl_op_eq, foldl_cons, hLeft, foldl_eq_op_foldl (e := e)]
  have hAssoc : op (op missing (rest.foldl op e)) (rest.foldl op e) =
      op missing (op (rest.foldl op e) (rest.foldl op e)) := Std.Associative.assoc _ _ _
  rw [foldl_eq_op_foldl (e := e), hJoin, hAssoc, hSelf, hRight]

end

/-- For every place of `body`, exclusive or into the same place of the array. -/
def xorInto : List UInt8 → List UInt8 → Option (List UInt8)
  | xor, [] => some xor
  | [], _ :: _ => none
  | x :: xor, b :: body => (xorInto xor body).map ((x ^^^ b) :: ·)

/-- `xorInto` for one list after the other. -/
def xorAll (xor : List UInt8) : List (List UInt8) → Option (List UInt8)
  | [] => some xor
  | body :: bodies => (xorInto xor body).bind fun xor => xorAll xor bodies

variable {xor body : List UInt8}

/-- A list that fits is joined place by place; behind its end nothing changes. -/
theorem xorInto_eq (h : body.length ≤ xor.length) :
    ∃ out, xorInto xor body = some out ∧ out.length = xor.length ∧
      ∀ i, out.getD i 0 = xor.getD i 0 ^^^ body.getD i 0 := by
  induction xor generalizing body with
  | nil =>
    obtain rfl : body = [] := eq_nil_of_length_eq_zero (Nat.le_zero.mp h)
    refine ⟨[], rfl, rfl, fun i => ?_⟩
    rw [getD_nil, UInt8.xor_self]
  | cons x xor ih =>
    cases body with
    | nil =>
      refine ⟨x :: xor, rfl, rfl, fun i => ?_⟩
      rw [getD_nil, UInt8.xor_zero]
    | cons b body =>
      obtain ⟨out, hOut, hLength, hGet⟩ := ih (Nat.le_of_succ_le_succ h)
      refine ⟨(x ^^^ b) :: out, ?_, ?_, fun i => ?_⟩
      · rw [xorInto, hOut, Option.map_some]
      · rw [length_cons, length_cons, hLength]
      · cases i with
        | zero => rfl
        | succ i =>
          simp only [getD_cons_succ]
          exact hGet i

variable {bodies : List (List UInt8)}

theorem xorAll_eq (h : ∀ body ∈ bodies, body.length ≤ xor.length) :
    ∃ out, xorAll xor bodies = some out ∧ out.length = xor.length ∧
      ∀ i, out.getD i 0 = (bodies.map (·.getD i 0)).foldl (· ^^^ ·) (xor.getD i 0) := by
  induction bodies generalizing xor with
  | nil => exact ⟨xor, rfl, rfl, fun _ => rfl⟩
  | cons body bodies ih =>
    obtain ⟨mid, hMid, hMidLength, hMidGet⟩ := xorInto_eq (h body mem_cons_self)
    have hFit : ∀ body' ∈ bodies, body'.length ≤ mid.length := by
      intro body' hMem
      rw [hMidLength]
      exact h body' (mem_cons_of_mem _ hMem)
    obtain ⟨out, hOut, hLength, hGet⟩ := ih hFit
    refine ⟨out, ?_, hLength.trans hMidLength, fun i => ?_⟩
    · rw [xorAll, hMid, Option.bind_some, hOut]
    · rw [hGet i, map_cons, foldl_cons, hMidGet i]

theorem xorInto_eq_none (h : xor.length < body.length) : xorInto xor body = none := by
  induction xor generalizing body with
  | nil =>
    cases body with
    | nil => cases h
    | cons b body => rfl
  | cons x xor ih =>
    cases body with
    | nil => cases h
    | cons b body => rw [xorInto, ih (Nat.lt_of_succ_lt_succ h), Option.map_none]

/-- It fails on a list that is longer than the array, and only on one. -/
theorem xorAll_eq_none_iff :
    xorAll xor bodies = none ↔ ∃ body ∈ bodies, xor.length < body.length := by
  constructor
  · intro hNone
    by_contra hShort
    have hFits : ∀ body ∈ bodies, body.length ≤ xor.length := fun body hMem =>
      Nat.le_of_not_lt fun hLong => hShort ⟨body, hMem, hLong⟩
    obtain ⟨out, hOut, -⟩ := xorAll_eq hFits
    cases hNone.symm.trans hOut
  · rintro ⟨body, hMem, hLong⟩
    induction bodies generalizing xor with
    | nil => cases hMem
    | cons first bodies ih =>
      rw [xorAll]
      by_cases hFirst : xor.length < first.length
      · rw [xorInto_eq_none hFirst, Option.bind_none]
      obtain ⟨mid, hMid, hLength, -⟩ := xorInto_eq (Nat.le_of_not_lt hFirst)
      rw [hMid, Option.bind_some]
      rcases mem_cons.mp hMem with rfl | hMem
      · exact absurd hLong hFirst
      · exact ih hMem (hLength ▸ hLong)

theorem take_eq_of_getD (hLength : body.length ≤ xor.length)
    (hGet : ∀ i, xor.getD i 0 = body.getD i 0) : xor.take body.length = body := by
  apply ext_getElem
  · rw [length_take, Nat.min_eq_left hLength]
  · intro i hTake hBody
    have hXor : i < xor.length := Nat.lt_of_lt_of_le hBody hLength
    have hAt := hGet i
    rw [getD_eq_getElem?_getD, getD_eq_getElem?_getD, getElem?_eq_getElem hXor,
      getElem?_eq_getElem hBody, Option.getD_some, Option.getD_some] at hAt
    rw [getElem_take, hAt]

end RemoteTerm.Foundation
