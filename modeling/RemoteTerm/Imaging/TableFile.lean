import RemoteTerm.Foundation.LittleEndian
import RemoteTerm.Foundation.Outcome
import Mathlib.Algebra.GroupWithZero.Nat
import Mathlib.Algebra.Ring.Int.Defs

/-!
# The file of entropy tables

`parse_entropy_tables` of `app/imaging/aeic/tables.py`. A table is rows of 32-bit integers.
The parser checks the shape of the file and the length of every row, and nothing about the
integers in the rows: they may fall, and they may be negative. Of the block for the index
quantizer only the checks are kept.
-/

namespace RemoteTerm.Imaging.TableFile

open Foundation List

inductive EntropyTableError where
  | tooShort (size : Nat)
  | badMagic
  | truncated (count off size : Nat)
  | unsupportedVersion (version : Nat)
  | badPrecision (precision : Nat)
  | badBypassPrecision (bypassPrecision : Nat)
  | badStreamParts (streamParts : Nat)
  | badNumGroups (numGroups : Nat)
  | badShape (group rows width : Nat)
  | badCdfLength (group row : Nat) (n : Int) (width : Nat)
  | missingBlock (what : String) (off : Nat)
  | badScalesLevels (levels : Nat)
  | trailingData (off size : Nat)
  deriving DecidableEq, Repr

structure CdfGroup where
  numCdfs : Nat
  cdfWidth : Nat
  cdfLength : List Int
  offset : List Int
  quantizedCdf : List Int
  deriving DecidableEq, Repr

structure EntropyTables where
  precision : Nat
  bypassPrecision : Nat
  streamParts : Nat
  groups : List CdfGroup
  deriving DecidableEq, Repr

/-! ## Reading -/

structure Cursor where
  data : Bytes
  off : Nat

namespace Cursor

variable (c : Cursor)

def need (count : Nat) : Except EntropyTableError Unit :=
  if c.off + count > c.data.length then .error (.truncated count c.off c.data.length) else .ok ()

/-- The bytes from here. -/
def slice (count : Nat) : Bytes := (c.data.drop c.off).take count

def skip (count : Nat) : Cursor := { c with off := c.off + count }

def u32 : Except EntropyTableError (Nat × Cursor) := do
  c.need 4
  return (ofLeBytes (c.slice 4), c.skip 4)

/-- A number of 32 bits with its sign. -/
def toI32 (value : Nat) : Int := if value < 0x80000000 then value else value - 0x100000000

def i32Array (count : Nat) : Except EntropyTableError (List Int × Cursor) := do
  c.need (count * 4)
  return ((List.range count).map fun i =>
    toI32 (ofLeBytes ((c.skip (i * 4)).slice 4)), c.skip (count * 4))

def literal (expected : Bytes) (what : String) : Except EntropyTableError Cursor := do
  c.need expected.length
  if c.slice expected.length ≠ expected then throw (.missingBlock what c.off)
  return c.skip expected.length

end Cursor

def magic : Bytes := [0x41, 0x45, 0x49, 0x43, 0x43, 0x44, 0x46, 0x01]
def idxp : Bytes := [0x49, 0x44, 0x58, 0x50]
def endMark : Bytes := [0x45, 0x4E, 0x44, 0x00]
def headerBytes : Nat := 32

/-- The rows' lengths, up to the first that is out of range. -/
def checkLengths (group width : Nat) : Nat → List Int → Except EntropyTableError Unit
  | _, [] => .ok ()
  | row, n :: ns =>
    if ¬(2 ≤ n ∧ n ≤ width) then .error (.badCdfLength group row n width)
    else checkLengths group width (row + 1) ns

def parseGroup (group : Nat) (c : Cursor) : Except EntropyTableError (CdfGroup × Cursor) := do
  let (rows, c) ← c.u32
  let (width, c) ← c.u32
  if ¬(0 < rows ∧ rows ≤ 2 ^ 20) ∨ ¬(0 < width ∧ width ≤ 2 ^ 24)
    then throw (.badShape group rows width)
  let (cdfLength, c) ← c.i32Array rows
  let (offset, c) ← c.i32Array rows
  let (cdf, c) ← c.i32Array (rows * width)
  checkLengths group width 0 cdfLength
  return (⟨rows, width, cdfLength, offset, cdf⟩, c)

def parseGroups : Nat → Nat → Cursor → Except EntropyTableError (List CdfGroup × Cursor)
  | 0, _, c => .ok ([], c)
  | count + 1, group, c => do
    let (first, c) ← parseGroup group c
    let (groups, c) ← parseGroups count (group + 1) c
    return (first :: groups, c)

/-- Two numbers of eight bytes, the levels, two numbers of four, and the table of scales. -/
def parseIndexQuantizer (c : Cursor) : Except EntropyTableError Cursor := do
  let c ← c.literal idxp "IDXP"
  c.need 28
  let levels := ofLeBytes ((c.skip 16).slice 4)
  let c := c.skip 28
  if ¬(0 < levels ∧ levels ≤ 2 ^ 20) then throw (.badScalesLevels levels)
  c.need (levels * 4)
  return c.skip (levels * 4)

/-- Header, groups and the quantizer block, with nothing left over. -/
def parseEntropyTables (data : Bytes) : Except EntropyTableError EntropyTables := do
  if data.length < headerBytes then throw (.tooShort data.length)
  if data.take magic.length ≠ magic then throw .badMagic
  let (version, c) ← Cursor.u32 ⟨data, magic.length⟩
  if version ≠ 1 then throw (.unsupportedVersion version)
  let (precision, c) ← c.u32
  let (bypassPrecision, c) ← c.u32
  let (streamParts, c) ← c.u32
  let (numGroups, c) ← c.u32
  if ¬(0 < precision ∧ precision ≤ 16) then throw (.badPrecision precision)
  if ¬(0 < bypassPrecision ∧ bypassPrecision < precision)
    then throw (.badBypassPrecision bypassPrecision)
  if ¬(1 ≤ streamParts ∧ streamParts ≤ 16) then throw (.badStreamParts streamParts)
  if ¬(1 ≤ numGroups ∧ numGroups ≤ 64) then throw (.badNumGroups numGroups)
  let (groups, c) ← parseGroups numGroups 0 c
  let c ← parseIndexQuantizer c
  let c ← c.literal endMark "END"
  if c.off ≠ data.length then throw (.trailingData c.off data.length)
  return ⟨precision, bypassPrecision, streamParts, groups⟩

/-! ## What an accepted file satisfies -/

structure CdfGroup.Valid (g : CdfGroup) : Prop where
  length_cdfLength : g.cdfLength.length = g.numCdfs
  length_offset : g.offset.length = g.numCdfs
  length_quantizedCdf : g.quantizedCdf.length = g.numCdfs * g.cdfWidth
  cdfLength_ge : ∀ n ∈ g.cdfLength, 2 ≤ n
  cdfLength_le : ∀ n ∈ g.cdfLength, n ≤ g.cdfWidth

structure EntropyTables.Valid (t : EntropyTables) : Prop where
  bypassPrecision_pos : 0 < t.bypassPrecision
  groups : ∀ g ∈ t.groups, g.Valid

theorem ends_i32Array (c : Cursor) (count : Nat) :
    Ends (c.i32Array count) (fun _ => True) fun p => p.1.length = count := by
  refine (Ends.of_true _).bind fun _ _ => ?_
  show ((List.range count).map _).length = count
  rw [length_map, length_range]

theorem ends_checkLengths (group width row : Nat) (ns : List Int) :
    Ends (checkLengths group width row ns) (fun _ => True) fun _ =>
      ∀ n ∈ ns, 2 ≤ n ∧ n ≤ width := by
  induction ns generalizing row with
  | nil => exact nofun
  | cons n ns ih =>
    rw [checkLengths]
    refine .ite (fun _ => trivial) fun hRow => (ih (row + 1)).mono fun _ hRest => ?_
    exact forall_mem_cons.mpr ⟨not_not.mp hRow, hRest⟩

theorem ends_parseGroup (group : Nat) (c : Cursor) :
    Ends (parseGroup group c) (fun _ => True) fun p => p.1.Valid := by
  refine (Ends.of_true _).bind fun rows _ => (Ends.of_true _).bind fun width _ => ?_
  refine .ite (fun _ => trivial) fun _ => ?_
  refine (ends_i32Array width.2 rows.1).bind fun cdfLength hLength => ?_
  refine (ends_i32Array cdfLength.2 rows.1).bind fun offset hOffset => ?_
  refine (ends_i32Array offset.2 (rows.1 * width.1)).bind fun cdf hCdf => ?_
  refine (ends_checkLengths group width.1 0 cdfLength.1).bind fun _ hRows => ?_
  exact ⟨hLength, hOffset, hCdf, fun n hn => (hRows n hn).1, fun n hn => (hRows n hn).2⟩

theorem ends_parseGroups (count group : Nat) (c : Cursor) :
    Ends (parseGroups count group c) (fun _ => True) fun p => ∀ g ∈ p.1, g.Valid := by
  induction count generalizing group c with
  | zero => exact nofun
  | succ count ih =>
    rw [parseGroups]
    refine (ends_parseGroup group c).bind fun first hFirst => ?_
    refine (ih (group + 1) first.2).bind fun groups hGroups => ?_
    exact forall_mem_cons.mpr ⟨hFirst, hGroups⟩

theorem ends_parseEntropyTables (data : Bytes) :
    Ends (parseEntropyTables data) (fun _ => True) EntropyTables.Valid := by
  refine .ite (fun _ => trivial) fun _ => .ite (fun _ => trivial) fun _ => ?_
  refine (Ends.of_true _).bind fun version _ => .ite (fun _ => trivial) fun _ => ?_
  refine (Ends.of_true _).bind fun precision _ => ?_
  refine (Ends.of_true _).bind fun bypass _ => ?_
  refine (Ends.of_true _).bind fun streamParts _ => ?_
  refine (Ends.of_true _).bind fun numGroups _ => ?_
  refine .ite (fun _ => trivial) fun _ => .ite (fun _ => trivial) fun hBypass => ?_
  refine .ite (fun _ => trivial) fun _ => .ite (fun _ => trivial) fun _ => ?_
  refine (ends_parseGroups numGroups.1 0 numGroups.2).bind fun groups hGroups => ?_
  refine (Ends.of_true _).bind fun c _ => (Ends.of_true _).bind fun c _ => ?_
  exact .ite (fun _ => trivial) fun _ => ⟨(not_not.mp hBypass).1, hGroups⟩

/-- What an accepted file is known to satisfy. -/
theorem valid_of_parse {data : Bytes} {t : EntropyTables} (h : parseEntropyTables data = .ok t) :
    t.Valid := by
  have hEnds := ends_parseEntropyTables data
  rw [h] at hEnds
  exact hEnds

end RemoteTerm.Imaging.TableFile
