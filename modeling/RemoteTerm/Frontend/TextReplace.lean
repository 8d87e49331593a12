import Mathlib.Data.List.Infix
import Mathlib.Data.List.Sort

/-!
# Text replacement while typing

`frontend/src/utils/textReplace.ts`: the needles of a map are replaced in one scan, the longest
first, and the cursor is moved along. A map with a needle inside a replacement is refused, yet
pieces of a text next to each other can make one (`needle_across_edge`).

Strings are UTF-16 code units; a map is given as parsed, its entries in order.
-/

namespace RemoteTerm.Frontend.TextReplace

open List

abbrev JsString := List UInt16

def units (s : String) : JsString := s.toList.map fun c => c.val.toUInt16

/-- A needle and its replacement. -/
abbrev Entry := JsString × JsString

/-- What `JSON.parse` returns; a value that is no string is `none`. -/
inductive Json where
  | object (rawEntries : List (JsString × Option JsString))
  | other

def Json.entries : Json → List Entry
  | .object rawEntries => rawEntries.filterMap fun (k, v) => v.map (k, ·)
  | .other => []

/-- The first needle that is in a replacement. -/
def reExpansion (entries : List Entry) : Option Entry :=
  entries.findSome? fun e =>
    if e.1.length = 0 then none else (entries.find? (e.1 <:+: ·.2)).map fun e' => (e.1, e'.2)

/-- `none` on success; `stored` is whether the map can be written. -/
def setTextReplaceMapJson (parsed : Option Json) (stored : Bool) : Option JsString :=
  match parsed with
  | none => some (units "Invalid JSON.")
  | some .other => some (units "Must be a JSON object.")
  | some (.object rawEntries) =>
    if rawEntries.any (·.2.isNone) then some (units "All keys and values must be strings.")
    else
      match reExpansion (Json.object rawEntries).entries with
      | some (needle, replacement) =>
        some (units "Key \"" ++ needle ++ units "\" appears inside replacement \"" ++ replacement ++
          units "\" and would re-expand on every keystroke.")
      | none => if stored then none else some (units "Invalid JSON.")

/-- The longest needles first; the sort is stable. -/
def buildReplacements (entries : List Entry) : List Entry :=
  (entries.filter (0 < ·.1.length)).insertionSort fun a b => b.1.length ≤ a.1.length

def firstMatch (replacements : List Entry) (rest : JsString) : Option Entry :=
  replacements.find? (·.1.isPrefixOf rest)

/-- The loop, with the text from `i` on. -/
def scan (replacements : List Entry) (cursorPos : Nat) (rest : JsString) (i : Nat)
    (result : JsString)
    (newCursor : Int) : JsString × Int :=
  match rest with
  | [] => (result, newCursor)
  | c :: rest =>
    match firstMatch replacements (c :: rest) with
    | some (needle, replacement) =>
      scan replacements cursorPos (rest.drop (needle.length - 1)) (i + needle.length)
        (result ++ replacement)
        (if i + needle.length ≤ cursorPos then newCursor + (replacement.length - needle.length)
        else if i < cursorPos then (result ++ replacement).length
        else newCursor)
    | none => scan replacements cursorPos rest (i + 1) (result ++ [c]) newCursor
termination_by rest.length

structure Replaced where
  text : JsString
  cursor : Int
  deriving DecidableEq

def applyTextReplacements (text : JsString) (cursorPos : Nat) (entries : List Entry) :
    Option Replaced :=
  let replacements := buildReplacements entries
  if replacements.length = 0 then none
  else
    let (result, newCursor) := scan replacements cursorPos text 0 [] cursorPos
    if result = text then none else some ⟨result, newCursor⟩

/-! ## The cursor -/

/-- What the scan takes from the text in one round, and what it writes for it. -/
def piece (rs : List Entry) (c : UInt16) (rest : JsString) : Entry :=
  (firstMatch rs (c :: rest)).getD ([c], [c])

/-- The text with all needles replaced. -/
def replaced (rs : List Entry) (text : JsString) : JsString :=
  match text with
  | [] => []
  | c :: rest => (piece rs c rest).2 ++ replaced rs (rest.drop ((piece rs c rest).1.length - 1))
termination_by text.length

/-- Start and replacement of the match that the scan finds across the cursor. -/
def straddling (rs : List Entry) (text : JsString) (cursorPos : Nat) : Option (Nat × JsString) :=
  match text with
  | [] => none
  | c :: rest =>
    if cursorPos = 0 then none
    else if cursorPos < (piece rs c rest).1.length then some (0, (piece rs c rest).2)
    else
      (straddling rs (rest.drop ((piece rs c rest).1.length - 1))
        (cursorPos - (piece rs c rest).1.length)).map
        (·.map ((piece rs c rest).1.length + ·) id)
termination_by text.length

/-- What stands before the cursor afterwards. -/
def beforeCursor (rs : List Entry) (text : JsString) (cursorPos : Nat) : JsString :=
  match straddling rs text cursorPos with
  | none => replaced rs (text.take cursorPos)
  | some (start, replacement) => replaced rs (text.take start) ++ replacement

variable {rs : List Entry} {e : Entry} {c : UInt16} {s t rest : JsString}

theorem firstMatch_eq_none : firstMatch rs t = none ↔ ∀ e ∈ rs, ¬e.1 <+: t := by
  simp [firstMatch]

theorem of_firstMatch (h : firstMatch rs t = some e) : e ∈ rs ∧ e.1 <+: t := by
  have hFound := find?_some h
  exact ⟨mem_of_find?_eq_some h, isPrefixOf_iff_prefix.mp hFound⟩

/-- A cut text begins with the same piece, unless that is cut too. -/
theorem piece_take {m : Nat} (h : (piece rs c rest).1.length ≤ m + 1) :
    piece rs c (rest.take m) = piece rs c rest := by
  have hCut : (c :: rest).take (m + 1) <+: c :: rest := List.take_prefix _ _
  unfold piece at h ⊢
  rw [← take_succ_cons]
  cases hFirst : firstMatch rs (c :: rest) with
  | none =>
    rw [firstMatch_eq_none.mpr fun e he hs => firstMatch_eq_none.mp hFirst e he (hs.trans hCut)]
  | some e =>
    rw [hFirst] at h
    have hFits := prefix_take_iff.mpr ⟨(of_firstMatch hFirst).2, h⟩
    obtain ⟨-, earlier, later, rfl, hEarlier⟩ := find?_eq_some_iff_append.mp hFirst
    have hSame : firstMatch (earlier ++ e :: later) ((c :: rest).take (m + 1)) = some e := by
      refine find?_eq_some_iff_append.mpr
        ⟨List.isPrefixOf_iff_prefix.mpr hFits, earlier, later, rfl, ?_⟩
      intro e' he'
      have hNot := hEarlier e' he'
      simp only [Bool.not_eq_true', Bool.eq_false_iff, ne_eq, isPrefixOf_iff_prefix] at hNot ⊢
      exact fun hs => hNot (hs.trans hCut)
    rw [hSame]

variable (hNeedles : ∀ e ∈ rs, e.1 ≠ [])

include hNeedles

theorem piece_pos : 0 < (piece rs c rest).1.length := by
  unfold piece
  cases h : firstMatch rs (c :: rest) with
  | none => exact Nat.one_pos
  | some e => exact length_pos_of_ne_nil (hNeedles e (of_firstMatch h).1)

theorem replaced_take (m : Nat) : replaced rs ((c :: rest).take ((piece rs c rest).1.length + m)) =
    (piece rs c rest).2 ++ replaced rs ((rest.drop ((piece rs c rest).1.length - 1)).take m) := by
  have hPos := @piece_pos rs c rest hNeedles
  obtain ⟨n, hn⟩ := Nat.exists_eq_add_one.mpr hPos
  rw [hn, Nat.add_right_comm, take_succ_cons, replaced, piece_take (by omega), hn, drop_take]
  simp

theorem beforeCursor_cons (k : Nat) : beforeCursor rs (c :: rest) ((piece rs c rest).1.length + k) =
    (piece rs c rest).2 ++ beforeCursor rs (rest.drop ((piece rs c rest).1.length - 1)) k := by
  have hPos := @piece_pos rs c rest hNeedles
  unfold beforeCursor
  rw [straddling, if_neg (by omega), if_neg (by omega), Nat.add_sub_cancel_left]
  cases straddling rs (rest.drop ((piece rs c rest).1.length - 1)) k with
  | none => exact replaced_take hNeedles k
  | some p => simp only [Option.map_some, Prod.map, id, replaced_take hNeedles, append_assoc]

variable {cursorPos : Nat}

omit hNeedles in
/-- One round, where a unit that is kept is replaced by itself. -/
theorem scan_cons (i : Nat) (result : JsString) (newCursor : Int) :
    scan rs cursorPos (c :: rest) i result newCursor =
    let p := piece rs c rest
    scan rs cursorPos (rest.drop (p.1.length - 1)) (i + p.1.length) (result ++ p.2)
      (if i + p.1.length ≤ cursorPos then newCursor + (p.2.length - p.1.length)
      else if i < cursorPos then (result ++ p.2).length
      else newCursor) := by
  rw [scan, piece]
  cases firstMatch rs (c :: rest) with
  | none =>
    simp only [Option.getD_none, length_singleton, Int.sub_self, Int.add_zero, Nat.sub_self,
      drop_zero]
    split_ifs
    · rfl
    · omega
    · rfl
  | some e => rfl

omit hNeedles in
theorem scan_text (i : Nat) (result : JsString) (newCursor : Int) :
    (scan rs cursorPos t i result newCursor).1 = result ++ replaced rs t := by
  fun_induction replaced rs t generalizing i result newCursor with
  | case1 => simp [scan]
  | case2 c rest ih =>
    rw [scan_cons]
    simp only [ih, append_assoc]

theorem scan_behind (i : Nat) (result : JsString) (newCursor : Int) (hi : cursorPos ≤ i) :
    (scan rs cursorPos t i result newCursor).2 = newCursor := by
  fun_induction replaced rs t generalizing i result with
  | case1 => rw [scan]
  | case2 c rest ih =>
    have hPos := @piece_pos rs c rest hNeedles
    rw [scan_cons]
    simp only
    rw [if_neg (by omega), if_neg (by omega), ih _ _ (by omega)]

/-- Before the cursor, the new one is as far behind the result as the old one is ahead. -/
theorem scan_cursor (k i : Nat) (result : JsString) (hk : k ≤ t.length) :
    (scan rs (i + k) t i result (result.length + k)).2 = (result ++ beforeCursor rs t k).length ∧
      beforeCursor rs t k <+: replaced rs t := by
  fun_induction straddling rs t k generalizing i result with
  | case1 k =>
    obtain rfl := Nat.le_zero.mp hk
    simp [scan, beforeCursor, straddling, replaced]
  | case2 c rest =>
    rw [scan_behind hNeedles i result _ (Nat.le_of_eq (Nat.add_zero i))]
    simp [beforeCursor, straddling, replaced]
  | case3 k c rest hk0 hInside =>
    have hBefore : beforeCursor rs (c :: rest) k = (piece rs c rest).2 := by
      simp [beforeCursor, straddling, hk0, hInside, replaced]
    rw [hBefore, replaced, scan_cons]
    simp only
    rw [scan_behind hNeedles _ _ _ (by omega), if_neg (by omega), if_pos (by omega)]
    exact ⟨rfl, prefix_append _ _⟩
  | case4 k c rest hk0 hPast ih =>
    obtain ⟨k, rfl⟩ := Nat.exists_eq_add_of_le (Nat.not_lt.mp hPast)
    have hPos := @piece_pos rs c rest hNeedles
    rw [length_cons] at hk
    rw [Nat.add_sub_cancel_left] at ih
    obtain ⟨hCursor, hPrefix⟩ := ih (i + _) (result ++ _) (by rw [length_drop]; omega)
    rw [beforeCursor_cons hNeedles, replaced, scan_cons]
    refine ⟨?_, (prefix_append_right_inj _).mpr hPrefix⟩
    simp only
    rw [if_pos (by omega), ← append_assoc, ← hCursor, Nat.add_assoc, length_append]
    congr 2
    omega

omit hNeedles

variable {entries : List Entry} {text : JsString} {r : Replaced}

theorem mem_buildReplacements : e ∈ buildReplacements entries ↔ e ∈ entries ∧ 0 < e.1.length := by
  simp [buildReplacements]

theorem needles_ne_nil : ∀ e ∈ buildReplacements entries, e.1 ≠ [] := by
  intro e he
  exact ne_nil_of_length_pos (mem_buildReplacements.mp he).2

theorem eq_of_applyTextReplacements (h : applyTextReplacements text cursorPos entries = some r) :
    r.text = replaced (buildReplacements entries) text ∧
      r.cursor = (scan (buildReplacements entries) cursorPos text 0 [] cursorPos).2 := by
  simp only [applyTextReplacements, scan_text, nil_append] at h
  split_ifs at h
  cases h
  exact ⟨rfl, rfl⟩

/-- The cursor ends behind the replaced text that was before it, or behind the replacement of the
match it was in. -/
theorem cursor_follows (text : JsString) (cursorPos : Nat) (entries : List Entry) (r : Replaced)
    (hCursor : cursorPos ≤ text.length)
    (h : applyTextReplacements text cursorPos entries = some r) :
    r.text = replaced (buildReplacements entries) text ∧ (0 ≤ r.cursor ∧ r.cursor ≤ r.text.length) ∧
      r.text.take r.cursor.toNat = beforeCursor (buildReplacements entries) text cursorPos := by
  obtain ⟨hText, hNew⟩ := eq_of_applyTextReplacements h
  obtain ⟨hScan, hPrefix⟩ := scan_cursor (@needles_ne_nil entries) cursorPos 0 [] hCursor
  simp only [Nat.zero_add, length_nil, nil_append, Int.natCast_zero, Int.zero_add] at hScan
  have hLength := hPrefix.length_le
  rw [hNew, hScan, hText, Int.toNat_natCast]
  exact ⟨rfl, ⟨by omega, by omega⟩, (prefix_iff_eq_take.mp hPrefix).symm⟩

/-- A cursor inside a needle goes behind its replacement. -/
theorem cursor_follows_inside :
    (units "x=>>y").take 4 = replaced (buildReplacements [(units "->", units "=>>")]) (units "x") ++
      units "=>>" :=
  (cursor_follows (units "x->y") 2 [(units "->", units "=>>")] ⟨units "x=>>y", 4⟩ (by decide)
    (by decide +kernel)).2.2.trans (by decide +kernel)

/-! ## Replacing again -/

/-- The pieces that the scan takes from a text, each with what is written for it. -/
def pieces (rs : List Entry) (text : JsString) : List Entry :=
  match text with
  | [] => []
  | c :: rest => piece rs c rest :: pieces rs (rest.drop ((piece rs c rest).1.length - 1))
termination_by text.length

/-- Pieces that the scan takes as they stand next to each other, and that make a needle together
but neither without the first nor without the last of them. -/
structure Window (rs : List Entry) (needle : JsString) (ps : List Entry) : Prop where
  scanned : pieces rs (ps.flatMap Prod.fst) = ps
  made : needle <:+: ps.flatMap Prod.snd
  first : ¬needle <:+: ps.tail.flatMap Prod.snd
  last : ¬needle <:+: ps.dropLast.flatMap Prod.snd

theorem replaced_eq_flatMap (rs : List Entry) (t : JsString) :
    replaced rs t = (pieces rs t).flatMap Prod.snd := by
  fun_induction replaced rs t with
  | case1 => rw [pieces, flatMap_nil]
  | case2 c rest ih => rw [pieces, flatMap_cons, ih]

/-- A piece is what its text begins with. -/
theorem piece_append (rs : List Entry) (c : UInt16) (rest : JsString)
    (hNeedles : ∀ e ∈ rs, e.1 ≠ []) :
    (piece rs c rest).1 ++ rest.drop ((piece rs c rest).1.length - 1) = c :: rest := by
  unfold piece
  cases hFirst : firstMatch rs (c :: rest) with
  | none => rfl
  | some e =>
    obtain ⟨he, hPrefix⟩ := of_firstMatch hFirst
    obtain ⟨tail, hTail⟩ := hPrefix
    cases hNeedle : e.1 with
    | nil => exact absurd hNeedle (hNeedles e he)
    | cons u needle =>
      rw [hNeedle, cons_append] at hTail
      obtain ⟨rfl, rfl⟩ := List.cons.inj hTail
      simp [hNeedle]

section Windows

variable (hNeedles : ∀ e ∈ rs, e.1 ≠ [])

include hNeedles

theorem flatMap_pieces (t : JsString) : (pieces rs t).flatMap Prod.fst = t := by
  fun_induction pieces rs t with
  | case1 => rfl
  | case2 c rest ih => rw [flatMap_cons, ih, piece_append rs c rest hNeedles]

/-- Taking the pieces again where they stand. -/
theorem scanned_cons {p : Entry} {ps : List Entry}
    (h : pieces rs (p.1 ++ ps.flatMap Prod.fst) = p :: ps) :
    ∃ c rest, p.1 ++ ps.flatMap Prod.fst = c :: rest ∧ piece rs c rest = p ∧
      pieces rs (ps.flatMap Prod.fst) = ps := by
  cases hText : p.1 ++ ps.flatMap Prod.fst with
  | nil =>
    rw [hText, pieces] at h
    cases h
  | cons c rest =>
    rw [hText, pieces] at h
    obtain ⟨hPiece, hRest⟩ := List.cons.inj h
    refine ⟨c, rest, rfl, hPiece, ?_⟩
    have hBack := flatMap_pieces hNeedles (rest.drop ((piece rs c rest).1.length - 1))
    rw [hRest] at hBack
    rw [hBack, hRest]

/-- A piece is found again when the text ends earlier. -/
theorem scanned_append {ps qs : List Entry}
    (h : pieces rs ((ps ++ qs).flatMap Prod.fst) = ps ++ qs) :
    pieces rs (ps.flatMap Prod.fst) = ps := by
  induction ps with
  | nil => rw [flatMap_nil, pieces]
  | cons p ps ih =>
    rw [cons_append, flatMap_cons] at h
    obtain ⟨c, rest, hText, hPiece, hRest⟩ := scanned_cons hNeedles h
    have hPos := @piece_pos rs c rest hNeedles
    rw [hPiece] at hPos
    obtain ⟨u, source, hSource⟩ := exists_cons_of_length_pos hPos
    rw [flatMap_append, hSource, cons_append] at hText
    obtain ⟨rfl, rfl⟩ := List.cons.inj hText
    have hSame : piece rs u (source ++ ps.flatMap Prod.fst) = p := by
      have hCut := @piece_take rs u (source ++ (ps.flatMap Prod.fst ++ qs.flatMap Prod.fst))
        (source ++ ps.flatMap Prod.fst).length
      rw [hPiece, hSource, ← append_assoc, take_left] at hCut
      exact hCut (by simp)
    rw [flatMap_cons, hSource, cons_append, pieces, hSame, hSource, length_cons, Nat.add_sub_cancel,
      drop_left, ih hRest]

/-- Where the output has a needle, some pieces of the text make it. -/
theorem exists_window {needle : JsString} (hNeedle : needle ≠ [])
    (hMade : needle <:+: replaced rs t) : ∃ ps, Window rs needle ps := by
  have hShrink : ∀ n, ∀ ps : List Entry, ps.length = n → pieces rs (ps.flatMap Prod.fst) = ps →
      needle <:+: ps.flatMap Prod.snd → ∃ ps, Window rs needle ps := by
    intro n
    induction n with
    | zero =>
      intro ps hLength _ hMade
      rw [length_eq_zero_iff.mp hLength, flatMap_nil] at hMade
      exact absurd (infix_nil.mp hMade) hNeedle
    | succ n ih =>
      intro ps hLength hScanned hMade
      obtain ⟨p, tail, rfl⟩ := exists_cons_of_length_eq_add_one hLength
      by_cases hFirst : needle <:+: tail.flatMap Prod.snd
      · rw [flatMap_cons] at hScanned
        obtain ⟨-, -, -, -, hTail⟩ := scanned_cons hNeedles hScanned
        exact ih tail (Nat.succ.inj hLength) hTail hFirst
      by_cases hLast : needle <:+: (p :: tail).dropLast.flatMap Prod.snd
      · refine ih _ (by rw [length_dropLast, hLength]; rfl) ?_ hLast
        rw [← dropLast_append_getLast (cons_ne_nil p tail)] at hScanned
        exact scanned_append hNeedles hScanned
      exact ⟨p :: tail, hScanned, hMade, hFirst, hLast⟩
  refine hShrink _ (pieces rs t) rfl ?_ ?_
  · rw [flatMap_pieces hNeedles]
  · rwa [← replaced_eq_flatMap]

/-- A text that is left as it is has no needle: what is written for a needle is shorter where the
text is behind, and would have the needle in it where it catches up. -/
theorem not_infix_of_fixed (hApart : ∀ e ∈ rs, ∀ e' ∈ rs, ¬e.1 <:+: e'.2) {d : JsString}
    (h : replaced rs t = d ++ t) : d = [] ∧ ∀ e ∈ rs, ¬e.1 <:+: t := by
  fun_induction replaced rs t generalizing d with
  | case1 =>
    rw [append_nil] at h
    exact ⟨h.symm, fun e he hIn => hNeedles e he (infix_nil.mp hIn)⟩
  | case2 c rest ih =>
    cases hFirst : firstMatch rs (c :: rest) with
    | none =>
      have hPiece : piece rs c rest = ([c], [c]) := by
        unfold piece
        rw [hFirst]
        rfl
      rw [hPiece] at h ih
      cases d with
      | nil =>
        obtain ⟨-, hRest⟩ := List.cons.inj h
        refine ⟨rfl, fun e he hIn => ?_⟩
        rcases infix_cons_iff.mp hIn with hHere | hLater
        · exact firstMatch_eq_none.mp hFirst e he hHere
        · exact (ih (d := []) hRest).2 e he hLater
      | cons u d =>
        obtain ⟨-, hRest⟩ := List.cons.inj h
        have hBehind := (ih (d := d ++ [c]) (by simpa using hRest)).1
        simp at hBehind
    | some e =>
      obtain ⟨he, -⟩ := of_firstMatch hFirst
      have hPiece : piece rs c rest = e := by
        unfold piece
        rw [hFirst]
        rfl
      have hText := piece_append rs c rest hNeedles
      rw [hPiece] at h ih hText
      rw [← hText, ← append_assoc] at h
      rcases append_eq_append_iff.mp h with ⟨d', hDone, hRest⟩ | ⟨d', hDone, hRest⟩
      · -- the text stays behind
        have hNone := (ih hRest).1
        rw [hNone, append_nil] at hDone
        exact absurd ⟨d, [], by rw [append_nil, hDone]⟩ (hApart e he e he)
      · exact absurd ⟨d, d', hDone.symm⟩ (hApart e he e he)

end Windows

/-- No needle can lie across the edge of a replacement. -/
def Separate (entries : List Entry) : Prop :=
  ∀ e ∈ entries, ∀ e' ∈ entries, ∀ n < e.1.length, 0 < n →
    ¬e.1.take n <:+ e'.2 ∧ ¬e.1.drop n <+: e'.2 ∧ ¬e'.2 <+: e.1.drop n

theorem not_infix_of_accepted {json : Json} {stored : Bool}
    (h : setTextReplaceMapJson (some json) stored = none) :
    ∀ e ∈ json.entries, e.1 ≠ [] → ∀ e' ∈ json.entries, ¬e.1 <:+: e'.2 := by
  have hNone : reExpansion json.entries = none := by
    unfold setTextReplaceMapJson at h
    split at h
    · cases h
    · cases h
    next rawEntries hJson =>
      cases hJson
      split at h
      · cases h
      · split at h
        · cases h
        · assumption
  intro e he hNeedle e' he'
  have hKey := findSome?_eq_none_iff.mp hNone e he
  rw [if_neg (length_pos_iff.mpr hNeedle).ne', Option.map_eq_none_iff] at hKey
  simpa using find?_eq_none.mp hKey e' he'

theorem replaced_of_not_infix (h : ∀ e ∈ rs, ¬e.1 <:+: t) : replaced rs t = t := by
  induction t with
  | nil => rw [replaced]
  | cons c t ih =>
    rw [replaced, piece, firstMatch_eq_none.mpr fun e he hs => h e he hs.isInfix]
    exact congrArg (c :: ·) (ih fun e he hs => h e he (infix_cons hs))

section Stable

variable (hSeparate : Separate rs) (he : e ∈ rs)

include hSeparate he

/-- A rest of a needle that the output begins with is at the beginning of the text as well. -/
theorem drop_prefix_of_replaced {n : Nat} (hn : 0 < n) (hOut : e.1.drop n <+: replaced rs t) :
    e.1.drop n <+: t := by
  fun_induction replaced rs t generalizing n with
  | case1 => exact hOut
  | case2 c rest ih =>
    unfold piece at hOut ih
    cases hFirst : firstMatch rs (c :: rest) with
    | some p =>
      rw [hFirst] at hOut
      by_cases hLess : n < e.1.length
      · have hEdge := hSeparate e he p (of_firstMatch hFirst).1 n hLess hn
        rcases prefix_or_prefix_of_prefix hOut (prefix_append p.2 _) with hIn | hOver
        · exact absurd hIn hEdge.2.1
        · exact absurd hOver hEdge.2.2
      · rw [drop_eq_nil_of_le (Nat.not_lt.mp hLess)]
        exact nil_prefix
    | none =>
      rw [hFirst] at hOut ih
      cases hDrop : e.1.drop n with
      | nil => exact nil_prefix
      | cons u needle =>
        have hTail : e.1.drop (n + 1) = needle := by rw [← tail_drop, hDrop, tail_cons]
        rw [hDrop] at hOut
        obtain ⟨hUnit, hRest⟩ := cons_prefix_cons.mp hOut
        exact cons_prefix_cons.mpr ⟨hUnit, hTail ▸ ih n.succ_pos (hTail ▸ hRest)⟩

theorem not_infix_replaced (hNeedles : ∀ e ∈ rs, e.1 ≠ [])
    (hApart : ∀ e ∈ rs, ∀ e' ∈ rs, ¬e.1 <:+: e'.2) : ¬e.1 <:+: replaced rs t := by
  fun_induction replaced rs t with
  | case1 => exact fun hIn => hNeedles e he (infix_nil.mp hIn)
  | case2 c rest ih =>
    unfold piece at ih ⊢
    intro hIn
    cases hFirst : firstMatch rs (c :: rest) with
    | some p =>
      rw [hFirst] at hIn ih
      have hp := (of_firstMatch hFirst).1
      rcases infix_append_iff.mp hIn with hValue | hRest | ⟨left, right, hNeedle, hSuffix, hPrefix⟩
      · exact hApart e he p hp hValue
      · exact ih hRest
      -- a needle across the edge, unless one part of it is empty
      rcases eq_or_ne left [] with rfl | hLeft
      · exact ih (hNeedle ▸ hPrefix.isInfix)
      rcases eq_or_ne right [] with rfl | hRight
      · rw [append_nil] at hNeedle
        exact hApart e he p hp (hNeedle ▸ hSuffix.isInfix)
      have hLength := congrArg List.length hNeedle
      have hLeftPos := length_pos_of_ne_nil hLeft
      have hRightPos := length_pos_of_ne_nil hRight
      rw [length_append] at hLength
      refine (hSeparate e he p hp left.length (by omega) hLeftPos).1 ?_
      rw [hNeedle, take_left]
      exact hSuffix
    | none =>
      rw [hFirst] at hIn ih
      rcases infix_cons_iff.mp hIn with hHead | hRest
      · cases hNeedle : e.1 with
        | nil => exact hNeedles e he hNeedle
        | cons u needle =>
          have hTail : e.1.drop 1 = needle := by rw [hNeedle, drop_one, tail_cons]
          rw [hNeedle] at hHead
          obtain ⟨rfl, hOut⟩ := cons_prefix_cons.mp hHead
          refine firstMatch_eq_none.mp hFirst e he ?_
          rw [hNeedle]
          exact cons_prefix_cons.mpr ⟨rfl,
            hTail ▸ drop_prefix_of_replaced hSeparate he Nat.one_pos (hTail ▸ hOut)⟩
      · exact ih hRest

end Stable

/-- A map none of whose needles can lie across an edge has no windows. -/
theorem Separate.no_window (hSeparate : Separate rs) (hNeedles : ∀ e ∈ rs, e.1 ≠ [])
    (hApart : ∀ e ∈ rs, ∀ e' ∈ rs, ¬e.1 <:+: e'.2) : ∀ e ∈ rs, ∀ ps, ¬Window rs e.1 ps := by
  intro e he ps h
  have hMade := h.made
  rw [← h.scanned, ← replaced_eq_flatMap] at hMade
  exact not_infix_replaced hSeparate he hNeedles hApart hMade

theorem apart_of_accepted {json : Json} {stored : Bool}
    (h : setTextReplaceMapJson (some json) stored = none) :
    ∀ e ∈ buildReplacements json.entries, ∀ e' ∈ buildReplacements json.entries, ¬e.1 <:+: e'.2 :=
  fun e he e' he' => not_infix_of_accepted h e (mem_buildReplacements.mp he).1
    (needles_ne_nil e he) e' (mem_buildReplacements.mp he').1

/-- A text is left alone exactly if nothing in it is written otherwise. -/
theorem applyTextReplacements_eq_none_iff :
    applyTextReplacements text cursorPos entries = none ↔
      replaced (buildReplacements entries) text = text := by
  unfold applyTextReplacements
  simp only [scan_text, nil_append]
  split_ifs with hNone hSame
  · rw [length_eq_zero_iff] at hNone
    rw [hNone, replaced_of_not_infix fun e he => absurd he not_mem_nil]
    simp
  · simp [hSame]
  · simp [hSame]

/-- **Replacing is stable exactly if no pieces of a text make a needle**, for every map that is
accepted. -/
theorem replacement_stable_iff (json : Json) (stored : Bool)
    (hAccepted : setTextReplaceMapJson (some json) stored = none) :
    (∀ text cursorPos cursorPos' r, applyTextReplacements text cursorPos json.entries = some r →
        applyTextReplacements r.text cursorPos' json.entries = none) ↔
      ∀ e ∈ buildReplacements json.entries, ∀ ps,
        ¬Window (buildReplacements json.entries) e.1 ps := by
  have hApart := apart_of_accepted hAccepted
  have hFixed : ∀ t, replaced (buildReplacements json.entries) t = t →
      ∀ e ∈ buildReplacements json.entries, ¬e.1 <:+: t :=
    fun t h => (not_infix_of_fixed needles_ne_nil hApart (d := []) h).2
  constructor
  · intro hStable e he ps hWindow
    have hMade := hWindow.made
    rw [← hWindow.scanned, ← replaced_eq_flatMap] at hMade
    cases hOnce : applyTextReplacements (ps.flatMap Prod.fst) 0 json.entries with
    | none =>
      have hSame := applyTextReplacements_eq_none_iff.mp hOnce
      exact hFixed _ hSame e he (hSame ▸ hMade)
    | some r =>
      have hTwice := applyTextReplacements_eq_none_iff.mp (hStable _ 0 0 r hOnce)
      rw [← (eq_of_applyTextReplacements hOnce).1] at hMade
      exact hFixed _ hTwice e he hMade
  · intro hWindows text cursorPos cursorPos' r h
    rw [applyTextReplacements_eq_none_iff, (eq_of_applyTextReplacements h).1]
    refine replaced_of_not_infix fun e he hMade => ?_
    obtain ⟨ps, hWindow⟩ := exists_window needles_ne_nil (needles_ne_nil e he) hMade
    exact hWindows e he ps hWindow

theorem replacement_stable_arrow : let json := Json.object [(units "->", some (units "="))]
    setTextReplaceMapJson (some json) true = none ∧
      applyTextReplacements (units "a->b") 4 json.entries = some ⟨units "a=b", 3⟩ ∧
      applyTextReplacements (units "a=b") 3 json.entries = none := by
  intro json
  have hAccepted : setTextReplaceMapJson (some json) true = none := by decide
  have hOnce : applyTextReplacements (units "a->b") 4 json.entries = some ⟨units "a=b", 3⟩ := by
    decide +kernel
  have hStable := (replacement_stable_iff json true hAccepted).mpr <|
    Separate.no_window (by unfold Separate; decide) needles_ne_nil (apart_of_accepted hAccepted)
  exact ⟨hAccepted, hOnce, hStable _ 4 3 _ hOnce⟩

/-- No key of this map is in a value, and yet replacing makes one. -/
theorem needle_across_edge :
    setTextReplaceMapJson (some (.object [(units "ab", some (units "b"))])) true = none ∧
    applyTextReplacements (units "aab") 3 [(units "ab", units "b")] = some ⟨units "ab", 2⟩ ∧
      applyTextReplacements (units "ab") 2 [(units "ab", units "b")] = some ⟨units "b", 1⟩ := by
  decide +kernel

end RemoteTerm.Frontend.TextReplace
