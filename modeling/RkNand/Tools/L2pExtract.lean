import RkNand.Ftl.Format
import RkNand.Lib.Chunks
import RkNand.Lib.Words

/-!
# The extractor (`l2p-extract.py`)

The script reads a map file of signed 32-bit page numbers and writes the logical pages `start, …,
start + count - 1` one after the other, zeros for the holes.  `extract_eq` gives the image for a
range that starts at a logical page and is not empty, as a concatenation of whole pages; a `count`
of zero stands for the rest of the map.
-/

namespace RkNand.L2pExtract

/-! ## The script -/

/-- `m[i]` in Python: negative indices count from the end, others out of range raise. -/
def pyIndex (m : List UInt32) (i : ℤ) : Option UInt32 :=
  if 0 ≤ i then m[i.toNat]?
  else if -m.length ≤ i then m[(m.length + i).toNat]?
  else none

/-- `range(a, b)`. -/
def pyRange (a b : ℤ) : List ℤ := (List.range (b - a).toNat).map fun i : ℕ => a + i

/-- The body of the loop: what is written for one logical page. -/
def writePage (m : List UInt32) (med : Medium) (lpn : ℤ) : Option (List UInt8) := do
  let phys ← if lpn < m.length then (pyIndex m lpn).map Words.signed else some (-1)
  let zero := List.replicate rkFtlPageSize 0
  if phys < 0 then return zero
  else
    let d := med.pread rkFtlPageSize (phys.toNat * rkFtlPageSize)
    return if d.length = rkFtlPageSize then d else (d ++ zero).take rkFtlPageSize

/-- `l2p-extract.py`: the output file, if the script does not raise. -/
def extract (mapfile : List UInt8) (med : Medium) (start count : ℤ) : Option (List UInt8) := do
  let m ← Words.fromBytes mapfile
  let count := if count = 0 then m.length - start else count
  let pages ← (pyRange start (start + count)).mapM (writePage m med)
  return pages.flatten

/-! ## The image -/

/-- The page a map gives for a logical page: zeros for a hole and past its end. -/
def mapPage (m : List UInt32) (med : Medium) (lpn : ℕ) : Page :=
  match m[lpn]? with
  | none => Page.zero
  | some w => if Words.signed w < 0 then Page.zero else med.page (Words.signed w).toNat

/-- The logical pages from `start` on. -/
def mapImage (m : List UInt32) (med : Medium) (start count : ℕ) : List UInt8 :=
  (List.range count).flatMap fun i => (mapPage m med (start + i)).bytes

theorem writePage_eq (m : List UInt32) (med : Medium) (lpn : ℕ) :
    writePage m med lpn = some (mapPage m med lpn).bytes := by
  by_cases h : lpn < m.length
  · have entry : m[lpn]? = some (m.get ⟨lpn, h⟩) := List.getElem?_eq_getElem h
    have index : pyIndex m lpn = some (m.get ⟨lpn, h⟩) := by simp [pyIndex, h]
    simp only [writePage, mapPage, entry, index, Nat.cast_lt, h, if_true, Option.map_some]
    by_cases hole : Words.signed (m.get ⟨lpn, h⟩) < 0
    · simp only [Option.bind_eq_bind, Option.bind_some, if_pos hole]
      rfl
    · simp only [Option.bind_eq_bind, Option.bind_some, if_neg hole]
      split_ifs with full
      · rw [Medium.pread_of_length med full]
        rfl
      · exact congrArg some (Medium.pread_append_zero med _)
  · have entry : m[lpn]? = none := List.getElem?_eq_none (by omega)
    simp only [writePage, mapPage, entry, Nat.cast_lt, h, if_false]
    rfl

theorem mapM_writePage (m : List UInt32) (med : Medium) (start n : ℕ) :
    (pyRange start (start + n)).mapM (writePage m med) =
      some ((List.range n).map fun i => (mapPage m med (start + i)).bytes) := by
  have range : pyRange start (start + n) =
      (List.range n).map fun i => ((start + i : ℕ) : ℤ) := by
    simp [pyRange]
  simp only [range, List.mapM_map, Function.comp_def, writePage_eq]
  exact List.mapM_pure

/-- The script writes the pages of the range it is given. -/
theorem extract_eq (m : List UInt32) (med : Medium) (start : ℕ) {count : ℕ} (pos : 0 < count) :
    extract (Words.toBytes m) med start count = some (mapImage m med start count) := by
  have ne : (count : ℤ) ≠ 0 := by omega
  simp only [extract, Words.fromBytes_toBytes, Option.bind_eq_bind, Option.bind_some, if_neg ne,
    mapM_writePage, mapImage, List.flatMap_def]
  rfl

/-- A count of zero is not an empty range, but the rest of the map. -/
theorem extract_count_zero (m : List UInt32) (med : Medium) {start : ℕ} (h : start ≤ m.length) :
    extract (Words.toBytes m) med start 0 =
      some (mapImage m med start (m.length - start)) := by
  have rest : (m.length : ℤ) - start = (m.length - start : ℕ) := by omega
  simp only [extract, Words.fromBytes_toBytes, Option.bind_eq_bind, Option.bind_some, if_true,
    rest, mapM_writePage, mapImage, List.flatMap_def]
  rfl

theorem length_mapImage (m : List UInt32) (med : Medium) (start count : ℕ) :
    (mapImage m med start count).length = count * rkFtlPageSize :=
  Chunks.length_flatMap_range (fun i => (mapPage m med (start + i)).length_bytes) count

/-- A cut within one page of the image. -/
theorem take_drop_mapImage (m : List UInt32) (med : Medium) (start : ℕ) {count i off len : ℕ}
    (hi : i < count) (within : off + len ≤ rkFtlPageSize) :
    ((mapImage m med start count).drop (i * rkFtlPageSize + off)).take len =
      ((mapPage m med (start + i)).bytes.drop off).take len :=
  Chunks.take_drop_flatMap_range (fun i => (mapPage m med (start + i)).length_bytes) hi within

end RkNand.L2pExtract
