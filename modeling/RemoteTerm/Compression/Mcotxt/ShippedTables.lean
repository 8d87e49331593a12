import RemoteTerm.Compression.Mcotxt.Stream

/-!
# The shipped MCOtxt tables

The seven language tables of `app/compression/models/mcotxt-v1.json`, in its own numbers, and
what `_Model` makes of an entry. Letters are named by code points; predictions and uppercase
letters by a place among the symbols. The wire hashes are left out.
-/

namespace RemoteTerm.Compression.Mcotxt

open Foundation List

/-! ## Entries of the file -/

structure RawModel where
  languageId : Nat
  primary : List Nat
  extension : List Nat
  startTop4 : List Nat
  punctStartTop4 : List Nat
  top4 : List Nat
  uppercase : List (Nat × Nat)

namespace RawModel

variable (raw : RawModel)

def symbols : List Nat := raw.primary ++ raw.extension

def symbolAt (i : Nat) : Char := Char.ofNat (raw.symbols.getD i 0)

/-- The predictions after the symbol in this place. -/
def row (i : Nat) : List Char := ((raw.top4.drop (i * 4)).take 4).map raw.symbolAt

/-- Every place that is named is one of the symbols, and every symbol has four predictions. -/
@[mk_iff]
structure WellFormed : Prop where
  languageId_lt : raw.languageId < 7
  primary_le : raw.primary.length ≤ 32
  extension_le : raw.extension.length ≤ 32
  codePoints : raw.symbols.all fun cp => cp.isValidChar
  startTop4 : raw.startTop4.length = 4
  punctStartTop4 : raw.punctStartTop4.length = 4
  top4 : raw.top4.length = raw.symbols.length * 4
  places : (raw.startTop4 ++ raw.punctStartTop4 ++ raw.top4 ++ raw.uppercase.map Prod.snd).all
    fun i => i < raw.symbols.length

instance : Decidable raw.WellFormed := decidable_of_iff' _ (wellFormed_iff raw)

end RawModel

/-! ## Complete tables -/

/-- The context can come up in the table: a letter before is one of its symbols. -/
def Context.Of (m : LanguageModel) : Context → Prop
  | .symbol previous => previous ∈ m.top4.keys
  | _ => True

def LanguageModel.Complete (m : LanguageModel) : Prop :=
  ∀ context : Context, context.Of m → (m.predictions context).length = 4 ∧
    ∀ c ∈ m.predictions context, c ∈ m.top4.keys

def ModelSet.Complete (ms : ModelSet) : Prop := ∀ m ∈ ms.models, m.Complete

/-! ## From an entry to a table -/

section

variable {raw : RawModel} {i : Nat} {c : Char}

def RawModel.rows (raw : RawModel) : Table Char (List Char) :=
  Table.ofList (raw.symbols.zipIdx.map fun e => (Char.ofNat e.1, raw.row e.2))

theorem RawModel.WellFormed.place_lt (h : raw.WellFormed)
    (hi : i ∈ raw.startTop4 ++ raw.punctStartTop4 ++ raw.top4 ++ raw.uppercase.map Prod.snd) :
    i < raw.symbols.length := by
  have hAll := all_eq_true.mp h.places i hi
  exact of_decide_eq_true hAll

theorem RawModel.mem_rows : c ∈ raw.rows.keys ↔ c ∈ raw.symbols.map Char.ofNat := by
  constructor
  · intro h
    obtain ⟨row, hRow⟩ := Table.mem_keys.mp h
    obtain ⟨e, he, hEntry⟩ := mem_map.mp (Table.mem_ofList hRow)
    obtain ⟨rfl, -⟩ := Prod.mk.inj hEntry
    exact mem_map.mpr ⟨e.1, fst_mem_of_mem_zipIdx he, rfl⟩
  · intro h
    obtain ⟨cp, hcp, rfl⟩ := mem_map.mp h
    obtain ⟨i, hi⟩ := mem_iff_getElem?.mp hcp
    have he : (cp, i) ∈ raw.symbols.zipIdx := mem_zipIdx_iff_getElem?.mpr hi
    exact Table.mem_keys_ofList (mem_map_of_mem he)

theorem RawModel.symbolAt_mem (hi : i < raw.symbols.length) : raw.symbolAt i ∈ raw.rows.keys := by
  rw [mem_rows, symbolAt, getD_eq_getElem _ _ hi]
  exact mem_map_of_mem (getElem_mem hi)

theorem RawModel.get?_rows {row : List Char} (h : raw.rows.get? c = some row) :
    ∃ i < raw.symbols.length, row = raw.row i := by
  obtain ⟨e, he, hEntry⟩ := mem_map.mp (Table.mem_ofList h)
  obtain ⟨-, rfl⟩ := Prod.mk.inj hEntry
  exact ⟨e.2, snd_lt_of_mem_zipIdx he, rfl⟩

theorem RawModel.length_row_le (raw : RawModel) (i : Nat) : (raw.row i).length ≤ 4 := by
  unfold row
  rw [length_map]
  exact length_take_le _ _

theorem RawModel.WellFormed.length_row (h : raw.WellFormed) (hi : i < raw.symbols.length) :
    (raw.row i).length = 4 := by
  unfold RawModel.row
  rw [length_map, length_take, length_drop, h.top4]
  omega

/-- The table of an entry. -/
def LanguageModel.ofRaw (raw : RawModel) (h : raw.WellFormed) : LanguageModel where
  globalId := raw.languageId
  primary := raw.primary.map Char.ofNat
  extension := raw.extension.map Char.ofNat
  startTop4 := raw.startTop4.map raw.symbolAt
  punctStartTop4 := raw.punctStartTop4.map raw.symbolAt
  top4 := raw.rows
  upperToLower := Table.ofList (raw.uppercase.map fun e => (Char.ofNat e.1, raw.symbolAt e.2))
  globalId_lt := h.languageId_lt
  primary_le := by
    rw [length_map]
    exact h.primary_le
  extension_le := by
    rw [length_map]
    exact h.extension_le
  startTop4_le := by
    rw [length_map, h.startTop4]
  punctStartTop4_le := by
    rw [length_map, h.punctStartTop4]
  top4_le := by
    intro c row hRow
    obtain ⟨i, -, rfl⟩ := RawModel.get?_rows hRow
    exact raw.length_row_le i
  top4_keys := by
    intro c
    rw [RawModel.mem_rows, RawModel.symbols, map_append, mem_append]
  lower_mem := by
    intro u l hLower
    obtain ⟨e, he, hEntry⟩ := mem_map.mp (Table.mem_ofList hLower)
    obtain ⟨-, rfl⟩ := Prod.mk.inj hEntry
    exact RawModel.symbolAt_mem (h.place_lt (mem_append_right _ (mem_map_of_mem he)))

/-- Every well-formed entry makes a table in which every context that can come up has four
predictions, all letters of the table. -/
theorem complete_ofRaw (h : raw.WellFormed) : (LanguageModel.ofRaw raw h).Complete := by
  have hSymbols : ∀ places : List Nat, (∀ i ∈ places,
      i ∈ raw.startTop4 ++ raw.punctStartTop4 ++ raw.top4) →
      ∀ c ∈ places.map raw.symbolAt, c ∈ raw.rows.keys := by
    intro places hPlaces c hc
    obtain ⟨i, hi, rfl⟩ := mem_map.mp hc
    exact RawModel.symbolAt_mem (h.place_lt (mem_append_left _ (hPlaces i hi)))
  intro context hContext
  cases context with
  | start =>
    refine ⟨(length_map _).trans h.startTop4, hSymbols _ fun i hi => ?_⟩
    exact mem_append_left _ (mem_append_left _ hi)
  | afterPunct =>
    refine ⟨(length_map _).trans h.punctStartTop4, hSymbols _ fun i hi => ?_⟩
    exact mem_append_left _ (mem_append_right _ hi)
  | symbol previous =>
    obtain ⟨row, hRow⟩ := Table.mem_keys.mp hContext
    have hPredictions : (LanguageModel.ofRaw raw h).predictions (.symbol previous) = row :=
      congrArg (Option.getD · []) hRow
    obtain ⟨i, hi, rfl⟩ := RawModel.get?_rows hRow
    rw [hPredictions]
    refine ⟨h.length_row hi, hSymbols _ fun j hj => ?_⟩
    exact mem_append_right _ (mem_of_mem_drop (mem_of_mem_take hj))

end

/-! ## The tables -/

def english : RawModel where
  languageId := 0
  primary :=
    [32, 111, 100, 97, 105, 108, 114, 109, 121, 116, 99, 112, 119, 115, 102, 103, 104, 98, 110, 101,
    107, 117, 118, 120, 49, 106, 51, 50, 56, 52, 122, 53]
  extension := [113, 54, 55, 57, 48]
  startTop4 := [16, 7, 9, 4]
  punctStartTop4 := [0, 13, 9, 7]
  top4 :=
    [9, 3, 4, 13, 18, 6, 0, 21, 0, 1, 19, 3, 18, 9, 5, 0, 18, 9, 13, 0, 5, 1, 0, 19, 19, 0, 18, 1,
    19, 1, 0, 3, 0, 1, 19, 13, 0, 16, 1, 19, 1, 16, 3, 19, 19, 13, 0, 1, 19, 4, 3, 0, 0, 9, 19, 16,
    0, 1, 6, 4, 0, 1, 16, 19, 19, 3, 1, 4, 19, 21, 1, 3, 15, 0, 4, 19, 0, 6, 13, 18, 19, 0, 13, 4,
    9, 13, 0, 6, 19, 4, 29, 3, 0, 9, 11, 4, 36, 0, 31, 27, 21, 1, 3, 19, 0, 36, 33, 2, 0, 27, 31,
    36, 0, 7, 33, 36, 0, 36, 29, 33, 19, 30, 8, 4, 0, 36, 33, 27, 21, 0, 7, 9, 0, 36, 35, 28, 0, 5,
    10, 6, 0, 33, 2, 35, 0, 36, 7, 35]
  uppercase :=
    [(65, 3), (66, 17), (67, 10), (68, 2), (69, 19), (70, 14), (71, 15), (72, 16), (73, 4),
    (74, 25), (75, 20), (76, 5), (77, 7), (78, 18), (79, 1), (80, 11), (81, 32), (82, 6), (83, 13),
    (84, 9), (85, 21), (86, 22), (87, 12), (88, 23), (89, 8), (90, 30)]

def russian : RawModel where
  languageId := 1
  primary :=
    [32, 1089, 1084, 1091, 1088, 1082, 1077, 1083, 1085, 1080, 1103, 1090, 1073, 1076, 1074, 1075,
    1095, 1072, 1079, 1086, 1099, 1087, 1081, 1093, 1078, 1096, 1102, 1100, 1101, 1097, 1094, 1092]
  extension := [49, 50, 51, 1105, 52, 53, 56, 55, 54, 57, 48, 1098]
  startTop4 := [21, 8, 0, 13]
  punctStartTop4 := [0, 11, 32, 5]
  top4 :=
    [8, 21, 1, 14, 11, 6, 0, 19, 0, 6, 19, 17, 0, 11, 13, 24, 19, 17, 6, 9, 19, 17, 0, 9, 0, 11, 8,
    4, 9, 27, 19, 6, 17, 19, 6, 9, 0, 11, 8, 7, 0, 11, 18, 7, 19, 17, 0, 27, 19, 4, 20, 6, 17, 19,
    6, 9, 0, 6, 17, 19, 19, 13, 17, 9, 6, 11, 17, 9, 0, 7, 5, 11, 17, 0, 8, 9, 0, 11, 13, 14, 0,
    22, 25, 7, 19, 4, 9, 17, 0, 11, 16, 5, 19, 0, 17, 3, 6, 8, 13, 9, 6, 9, 17, 5, 0, 11, 16, 1, 0,
    8, 5, 1, 11, 5, 8, 7, 6, 17, 35, 9, 9, 6, 17, 0, 9, 19, 7, 6, 0, 42, 32, 36, 0, 42, 37, 33, 0,
    42, 34, 33, 0, 11, 2, 7, 0, 42, 34, 37, 0, 42, 37, 40, 0, 40, 42, 33, 0, 39, 42, 37, 0, 37, 38,
    42, 0, 41, 42, 37, 0, 42, 2, 5, 6, 10, 35, 9]
  uppercase :=
    [(1025, 35), (1040, 17), (1041, 12), (1042, 14), (1043, 15), (1044, 13), (1045, 6), (1046, 24),
    (1047, 18), (1048, 9), (1049, 22), (1050, 5), (1051, 7), (1052, 2), (1053, 8), (1054, 19),
    (1055, 21), (1056, 4), (1057, 1), (1058, 11), (1059, 3), (1060, 31), (1061, 23), (1062, 30),
    (1063, 16), (1064, 25), (1065, 29), (1066, 43), (1067, 20), (1068, 27), (1069, 28), (1070, 26),
    (1071, 10)]

def french : RawModel where
  languageId := 2
  primary :=
    [32, 117, 116, 99, 109, 114, 108, 111, 105, 101, 97, 115, 110, 118, 112, 233, 106, 98, 100, 103,
    104, 102, 113, 121, 231, 224, 107, 50, 120, 49, 53, 122]
  extension :=
    [52, 119, 51, 55, 54, 232, 48, 56, 234, 57, 244, 238, 249, 251, 252, 235, 339, 226, 230, 239,
    255]
  startTop4 := [17, 11, 2, 3]
  punctStartTop4 := [0, 10, 9, 12]
  top4 :=
    [18, 14, 6, 11, 5, 0, 2, 8, 0, 9, 8, 7, 7, 20, 9, 10, 9, 10, 7, 8, 0, 9, 10, 7, 9, 10, 6, 0, 12,
    1, 8, 5, 0, 11, 12, 5, 0, 11, 12, 5, 8, 0, 12, 11, 0, 2, 9, 10, 0, 2, 9, 11, 9, 7, 8, 10, 10,
    7, 9, 5, 2, 0, 9, 14, 9, 7, 1, 10, 7, 8, 6, 9, 9, 8, 0, 1, 9, 5, 10, 12, 9, 7, 10, 0, 10, 5, 8,
    7, 1, 0, 22, 5, 0, 9, 7, 2, 10, 1, 7, 0, 0, 9, 11, 10, 0, 9, 10, 8, 0, 38, 29, 41, 0, 9, 2, 7,
    0, 34, 29, 35, 0, 38, 41, 27, 0, 10, 9, 8, 0, 41, 32, 34, 8, 9, 10, 7, 0, 34, 32, 39, 34, 29,
    38, 0, 0, 39, 27, 32, 11, 5, 2, 4, 0, 38, 36, 35, 0, 36, 4, 21, 2, 4, 13, 0, 0, 10, 21, 9, 2,
    6, 14, 0, 12, 2, 6, 3, 0, 9, 11, 10, 5, 0, 9, 11, 5, 0, 9, 11, 6, 0, 9, 11, 8, 0, 9, 11, 0, 9,
    11, 10, 0, 9, 11, 10, 0, 9, 11, 10, 0, 9, 11, 10]
  uppercase :=
    [(65, 10), (66, 17), (67, 3), (68, 18), (69, 9), (70, 21), (71, 19), (72, 20), (73, 8),
    (74, 16), (75, 26), (76, 6), (77, 4), (78, 12), (79, 7), (80, 14), (81, 22), (82, 5), (83, 11),
    (84, 2), (85, 1), (86, 13), (87, 33), (88, 28), (89, 23), (90, 31), (192, 25), (194, 49),
    (198, 50), (199, 24), (200, 37), (201, 15), (202, 40), (203, 47), (206, 43), (207, 51),
    (212, 42), (217, 44), (219, 45), (220, 46), (338, 48), (376, 52)]

def german : RawModel where
  languageId := 3
  primary :=
    [32, 115, 116, 98, 104, 111, 103, 108, 105, 109, 110, 114, 117, 119, 107, 102, 101, 99, 97, 100,
    122, 112, 252, 118, 106, 246, 228, 49, 51, 50, 121, 53]
  extension := [57, 52, 54, 55, 56, 223, 120, 48, 113]
  startTop4 := [6, 9, 4, 19]
  punctStartTop4 := [0, 3, 19, 18]
  top4 :=
    [18, 19, 9, 8, 0, 2, 16, 17, 0, 16, 18, 2, 16, 8, 18, 0, 0, 18, 16, 2, 11, 8, 10, 21, 16, 12,
    11, 0, 7, 16, 8, 0, 10, 17, 16, 2, 5, 16, 8, 18, 0, 19, 16, 18, 0, 16, 6, 18, 1, 2, 10, 11, 16,
    8, 18, 5, 16, 5, 18, 0, 16, 18, 0, 11, 10, 11, 0, 8, 4, 14, 5, 0, 12, 10, 7, 17, 16, 18, 0, 8,
    12, 16, 2, 0, 1, 16, 21, 15, 37, 11, 3, 17, 5, 16, 8, 12, 16, 18, 5, 12, 10, 11, 7, 6, 2, 26,
    12, 10, 0, 39, 27, 29, 0, 27, 39, 36, 0, 39, 35, 28, 2, 0, 16, 5, 0, 39, 4, 35, 0, 4, 39, 36,
    0, 35, 39, 34, 0, 27, 28, 34, 0, 28, 27, 33, 0, 27, 28, 34, 16, 0, 2, 8, 0, 8, 2, 16, 0, 39,
    34, 35, 12, 0, 2, 1]
  uppercase :=
    [(65, 18), (66, 3), (67, 17), (68, 19), (69, 16), (70, 15), (71, 6), (72, 4), (73, 8), (74, 24),
    (75, 14), (76, 7), (77, 9), (78, 10), (79, 5), (80, 21), (81, 40), (82, 11), (83, 1), (84, 2),
    (85, 12), (86, 23), (87, 13), (88, 38), (89, 30), (90, 20), (196, 26), (214, 25), (220, 22),
    (7838, 37)]

def italian : RawModel where
  languageId := 4
  primary :=
    [32, 116, 108, 109, 112, 117, 105, 114, 99, 115, 103, 118, 101, 111, 97, 110, 100, 98, 104, 122,
    102, 113, 232, 49, 51, 50, 52, 119, 107, 55, 54, 56]
  extension := [53, 121, 224, 236, 57, 242, 48, 249, 106, 233, 120, 237, 243, 250]
  startTop4 := [17, 8, 9, 6]
  punctStartTop4 := [0, 6, 14, 7]
  top4 :=
    [14, 9, 16, 8, 12, 6, 13, 1, 14, 0, 12, 6, 12, 6, 14, 13, 12, 13, 9, 7, 13, 15, 1, 14, 0, 13,
    14, 15, 12, 14, 6, 13, 13, 6, 18, 12, 12, 14, 1, 6, 6, 10, 7, 14, 12, 14, 13, 6, 0, 7, 15, 9,
    0, 15, 7, 4, 0, 15, 2, 7, 13, 0, 14, 1, 14, 6, 13, 12, 5, 12, 6, 14, 13, 12, 6, 14, 6, 14, 19,
    13, 14, 6, 12, 13, 5, 1, 0, 7, 0, 13, 14, 6, 0, 38, 25, 14, 0, 17, 24, 18, 0, 38, 31, 36, 0,
    36, 32, 18, 6, 14, 0, 12, 0, 6, 7, 5, 24, 0, 20, 32, 0, 23, 31, 32, 0, 30, 17, 20, 0, 38, 23,
    30, 1, 0, 10, 9, 0, 13, 14, 6, 0, 14, 15, 13, 0, 13, 23, 25, 0, 12, 13, 14, 0, 38, 25, 30, 0,
    13, 14, 6, 15, 13, 0, 14, 0, 13, 14, 6, 0, 8, 5, 16, 0, 13, 14, 6, 0, 13, 14, 6, 0, 13, 14, 6]
  uppercase :=
    [(65, 14), (66, 17), (67, 8), (68, 16), (69, 12), (70, 20), (71, 10), (72, 18), (73, 6),
    (74, 40), (75, 28), (76, 2), (77, 3), (78, 15), (79, 13), (80, 4), (81, 21), (82, 7), (83, 9),
    (84, 1), (85, 5), (86, 11), (87, 27), (88, 42), (89, 33), (90, 19), (192, 34), (200, 22),
    (201, 41), (204, 35), (205, 43), (210, 37), (211, 44), (217, 39), (218, 45)]

def ukrainian : RawModel where
  languageId := 5
  primary :=
    [32, 1082, 1089, 1088, 1110, 1084, 1091, 1085, 1079, 1073, 1083, 1076, 1086, 1080, 1103, 1072,
    1077, 1090, 1074, 1096, 1095, 1081, 1075, 1087, 1078, 1102, 1094, 1093, 1108, 1097, 1092, 1111]
  extension := [50, 51, 1100, 49, 52, 53, 56, 54, 55, 48, 57, 1169]
  startTop4 := [0, 17, 7, 11]
  punctStartTop4 := [0, 37, 41, 35]
  top4 :=
    [23, 18, 7, 17, 12, 15, 13, 6, 17, 34, 14, 23, 12, 15, 16, 13, 0, 11, 7, 10, 12, 15, 0, 16, 0,
    18, 17, 10, 15, 12, 16, 4, 15, 0, 7, 4, 6, 15, 12, 4, 16, 34, 13, 14, 12, 15, 16, 6, 0, 5, 18,
    11, 0, 18, 17, 2, 0, 1, 17, 18, 0, 7, 17, 10, 0, 7, 3, 5, 15, 13, 12, 34, 0, 15, 13, 4, 13, 12,
    16, 6, 13, 15, 16, 12, 0, 7, 17, 12, 12, 15, 4, 3, 3, 12, 4, 16, 16, 7, 0, 13, 0, 28, 17, 18,
    16, 4, 25, 14, 0, 12, 13, 17, 0, 17, 5, 11, 12, 16, 15, 6, 4, 12, 15, 17, 0, 27, 31, 7, 0, 32,
    39, 41, 0, 32, 33, 41, 0, 7, 1, 2, 32, 41, 0, 37, 0, 33, 40, 41, 0, 18, 41, 32, 41, 0, 39, 32,
    38, 0, 32, 33, 0, 41, 1, 5, 0, 41, 1, 5, 39, 0, 42, 22, 0, 12, 15, 7]
  uppercase :=
    [(1028, 28), (1030, 4), (1031, 31), (1040, 15), (1041, 9), (1042, 18), (1043, 22), (1044, 11),
    (1045, 16), (1046, 24), (1047, 8), (1048, 13), (1049, 21), (1050, 1), (1051, 10), (1052, 5),
    (1053, 7), (1054, 12), (1055, 23), (1056, 3), (1057, 2), (1058, 17), (1059, 6), (1060, 30),
    (1061, 27), (1062, 26), (1063, 20), (1064, 19), (1065, 29), (1068, 34), (1070, 25), (1071, 14),
    (1168, 43)]

def belarusian : RawModel where
  languageId := 6
  primary :=
    [32, 1082, 1083, 1084, 1089, 1077, 1088, 1074, 1085, 1103, 1076, 1091, 1090, 1095, 1086, 1087,
    1079, 1099, 1081, 1075, 1073, 1078, 1072, 1096, 1102, 1093, 1100, 1101, 50, 1092, 1094, 49]
  extension := [52, 1105, 51, 54, 56, 53, 55, 48, 57, 1110, 1118]
  startTop4 := [0, 12, 8, 5]
  punctStartTop4 := [0, 12, 28, 38]
  top4 :=
    [8, 15, 7, 4, 22, 14, 0, 2, 14, 26, 0, 22, 14, 0, 5, 22, 12, 0, 5, 14, 0, 12, 8, 6, 14, 22, 5,
    11, 0, 22, 5, 14, 22, 14, 5, 11, 0, 12, 16, 8, 5, 14, 22, 11, 0, 12, 21, 4, 14, 22, 0, 26, 5,
    22, 12, 8, 0, 10, 20, 12, 14, 6, 22, 5, 22, 0, 8, 14, 0, 18, 2, 12, 0, 12, 1, 4, 14, 6, 10, 22,
    14, 17, 11, 6, 5, 8, 11, 22, 0, 2, 4, 12, 5, 26, 22, 12, 13, 0, 12, 10, 14, 0, 22, 16, 0, 8,
    23, 12, 12, 1, 29, 7, 0, 28, 39, 32, 14, 22, 29, 11, 5, 22, 7, 17, 39, 37, 0, 31, 0, 37, 36,
    39, 0, 12, 3, 14, 0, 39, 28, 32, 0, 36, 38, 40, 35, 0, 37, 14, 0, 39, 35, 4, 0, 35, 28, 37, 39,
    0, 28, 37, 39, 0, 3, 34, 0, 14, 5, 22, 0, 14, 5, 22]
  uppercase :=
    [(1025, 33), (1030, 41), (1038, 42), (1040, 22), (1041, 20), (1042, 7), (1043, 19), (1044, 10),
    (1045, 5), (1046, 21), (1047, 16), (1049, 18), (1050, 1), (1051, 2), (1052, 3), (1053, 8),
    (1054, 14), (1055, 15), (1056, 6), (1057, 4), (1058, 12), (1059, 11), (1060, 29), (1061, 25),
    (1062, 30), (1063, 13), (1064, 23), (1067, 17), (1068, 26), (1069, 27), (1070, 24), (1071, 9)]

def shippedGeneration : Nat := 0

/-- The tables as the decoder loads them, in the order of their numbers. -/
def shippedModels : ModelSet where
  generation := shippedGeneration
  models :=
    [.ofRaw english (by decide +kernel), .ofRaw russian (by decide +kernel),
      .ofRaw french (by decide +kernel), .ofRaw german (by decide +kernel),
      .ofRaw italian (by decide +kernel), .ofRaw ukrainian (by decide +kernel),
      .ofRaw belarusian (by decide +kernel)]
  generation_le := by decide
  ids_nodup := by decide

theorem complete_shippedModels : shippedModels.Complete := by
  have hAll : ∀ m ∈ shippedModels.models, ∃ raw, ∃ h :
      RawModel.WellFormed raw, m = .ofRaw raw h := by
    simp only [shippedModels, forall_mem_cons]
    exact ⟨⟨_, _, rfl⟩, ⟨_, _, rfl⟩, ⟨_, _, rfl⟩, ⟨_, _, rfl⟩, ⟨_, _, rfl⟩, ⟨_, _, rfl⟩,
      ⟨_, _, rfl⟩,
      nofun⟩
  intro m hm
  obtain ⟨raw, h, rfl⟩ := hAll m hm
  exact complete_ofRaw h

end RemoteTerm.Compression.Mcotxt
