import RkNand.Lib.Struct
import RkNand.Tools.Python
import RkNand.Tools.RkCrc

/-!
# The loader writer (`rknand-write-loader.py`)

The tool admits an image by its first word and its length, sends it to the storage device in
`WRITE_SECTOR` requests of at most 4088 bytes and commits it with `END_WRITE`.  The handler's limits
are the ones the script records: on the offset and the length of a chunk, and on the length of the
whole.  A chunk's offset is a multiple of 4088 below the length of the image
(`mem_accumulate`), so the last chunk of the longest images admitted starts beyond the limit on
offsets.
-/

namespace RkNand.WriteLoader

open Python

/-! ## The script -/

/-- `IDB_MAGIC`. -/
def idbMagic : ℕ := 0xFCDC8C3B

/-- `_IOC`. -/
def ioc (d : ℕ) (t : Char) (nr sz : ℕ) : ℕ := (d <<< 30) ||| (sz <<< 16) ||| (t.toNat <<< 8) ||| nr

/-- `_IOW`. -/
def iow (t : Char) (nr sz : ℕ) : ℕ := ioc 1 t nr sz

/-- `WRITE_SECTOR`. -/
def writeSector : ℕ := iow 'r' 5 4

/-- `END_WRITE`. -/
def endWrite : ℕ := iow 'r' 0x52 4

example : writeSector = 0x40047205 ∧ endWrite = 0x40047252 := by decide

/-- `WRITE_REQ_TOTAL`. -/
def writeReqTotal : ℕ := 4096

/-- `WRITE_HDR`. -/
def writeHdr : ℕ := 8

/-- `WRITE_CHUNK_MAX`. -/
def writeChunkMax : ℕ := 4088

/-- `END_REQ_LEN`. -/
def endReqLen : ℕ := 28

/-- `IDB_BLK_DEFAULT`. -/
def idbBlkDefault : List ℤ := [2, 3, 4, 5, 6]

/-- One `ioctl`: its number and the buffer it hands over. -/
structure Request where
  cmd : ℕ
  buf : List UInt8
deriving DecidableEq

/-- How the device node answers: whether it opens, and whether its `k`-th request returns without
an error. -/
structure Device where
  opens : Bool
  accepts : ℕ → Bool

/-- What a call has sent to the device and how it ended. -/
structure Outcome where
  sent : List Request
  result : Except PyError Unit

/-- `fcntl.ioctl`. -/
def ioctl (dev : Device) (req : Request) (sent : List Request) : Outcome :=
  ⟨sent ++ [req], if dev.accepts sent.length then .ok () else .error .osError⟩

/-- The request `do_write_sector` makes. -/
def writeSectorRequest (dstOff : ℕ) (chunk : List UInt8) : Except PyError Request := do
  if chunk.length ≤ writeChunkMax then
    let buf := List.replicate writeReqTotal 0
    let buf ← orRaise .structError (Struct.packInto 4 buf 0 dstOff)
    let buf ← orRaise .structError (Struct.packInto 4 buf 4 chunk.length)
    .ok ⟨writeSector, buf.take writeHdr ++ chunk ++ buf.drop (writeHdr + chunk.length)⟩
  else .error .assertionError

/-- `do_write_sector`. -/
def doWriteSector (dev : Device) (dstOff : ℕ) (chunk : List UInt8) (sent : List Request) :
    Outcome :=
  match writeSectorRequest dstOff chunk with
  | .ok req => ioctl dev req sent
  | .error e => ⟨sent, .error e⟩

/-- `struct.pack_into` of a field of four bytes with an integer of either sign. -/
def packIntInto (buf : List UInt8) (off : ℕ) (v : ℤ) : Option (List UInt8) :=
  if 0 ≤ v then Struct.packInto 4 buf off v.toNat else none

/-- The request `do_end_write` makes. -/
def endWriteRequest (totalLen crc : ℕ) (idbBlk : List ℤ) : Except PyError Request := do
  let buf := List.replicate endReqLen 0
  let buf ← orRaise .structError (Struct.packInto 4 buf 0 totalLen)
  let buf ← orRaise .structError (Struct.packInto 4 buf 4 crc)
  let buf ← orRaise .structError
    ((idbBlk.take 5).zipIdx.foldlM (fun buf (v, i) => packIntInto buf (8 + 4 * i) v) buf)
  .ok ⟨endWrite, buf⟩

/-- `do_end_write`. -/
def doEndWrite (dev : Device) (totalLen crc : ℕ) (idbBlk : List ℤ) (sent : List Request) :
    Outcome :=
  match endWriteRequest totalLen crc idbBlk with
  | .ok req => ioctl dev req sent
  | .error e => ⟨sent, .error e⟩

/-- The loop of `write_loader`. -/
def accumulate (img : List UInt8) (dev : Device) (off : ℕ) (sent : List Request) : Outcome :=
  if off < img.length then
    let chunk := Struct.slice img off (off + writeChunkMax)
    match doWriteSector dev off chunk sent with
    | ⟨sent, .ok ()⟩ => accumulate img dev (off + chunk.length) sent
    | ⟨sent, .error e⟩ => ⟨sent, .error e⟩
  else ⟨sent, .ok ()⟩
termination_by img.length - off
decreasing_by
  have advances : 0 < (Struct.slice img off (off + writeChunkMax)).length := by
    simp only [Struct.slice, List.length_drop, List.length_take, writeChunkMax]
    omega
  omega

/-- The message for an image with another first word. -/
def refusing (magic : ℕ) : PyStr :=
  let hex := format08 fun d => (Nat.digitChar d).toUpper
  str "REFUSING: first word = 0x" ++ hex magic ++ str ", expected IDB magic 0x" ++ hex idbMagic
    ++ str ".\nThis is not an IDBlock. rk322x_loader_*.bin ('BOOT'=0x54004F42... "
    ++ str "actually 0x424F4F54) must be wrapped into an IDBlock first."

/-- `write_loader`, of the bytes of the file. -/
def writeLoader (img : List UInt8) (idbBlk : List ℤ) (dry : Bool) (dev : Device) : Outcome :=
  if img.length < 4 then ⟨[], .error (.systemExit (str "image too small"))⟩
  else
    match Struct.unpackFrom 4 img 0 with
    | none => ⟨[], .error .structError⟩
    | some magic =>
      if magic ≠ idbMagic then ⟨[], .error (.systemExit (refusing magic))⟩
      else if 256000 < img.length then
        ⟨[], .error (.systemExit (str "IDBlock too large (" ++ str (toString img.length)
          ++ str " > 256000)"))⟩
      else
        let crc := rkCrc32 img 0
        if dry then ⟨[], .ok ()⟩
        else if ¬ dev.opens then ⟨[], .error .osError⟩
        else
          match accumulate img dev 0 [] with
          | ⟨sent, .ok ()⟩ => doEndWrite dev img.length crc idbBlk sent
          | ⟨sent, .error e⟩ => ⟨sent, .error e⟩

/-! ## The handler's limits -/

/-- The limits recorded for the handler of the two requests. -/
def Request.Taken (req : Request) : Prop :=
  (req.cmd = writeSector → ∃ dstOff len, Struct.unpackFrom 4 req.buf 0 = some dstOff ∧
    Struct.unpackFrom 4 req.buf 4 = some len ∧ dstOff ≤ 0x3d800 ∧ len ≤ 4088) ∧
  (req.cmd = endWrite → ∃ len, Struct.unpackFrom 4 req.buf 0 = some len ∧ len ≤ 256000)

/-- An image the tool does not refuse. -/
def Admitted (img : List UInt8) : Prop :=
  Struct.unpackFrom 4 img 0 = some idbMagic ∧ img.length ≤ 256000

/-! ## Requests -/

/-- A request that carries `len` bytes for offset `off`. -/
structure Request.Chunk (req : Request) (off len : ℕ) : Prop where
  cmd : req.cmd = writeSector
  dstOff : Struct.unpackFrom 4 req.buf 0 = some off
  len : Struct.unpackFrom 4 req.buf 4 = some len

/-- A request that carries the bytes `data` for offset `off`. -/
structure Request.Carries (req : Request) (off : ℕ) (data : List UInt8) : Prop
    extends req.Chunk off data.length where
  size : req.buf.length = 4096
  data : Struct.slice req.buf 8 (8 + data.length) = data

theorem writeSectorRequest_ok (off : ℕ) (chunk : List UInt8) (low : off < 256 ^ 4)
    (short : chunk.length ≤ writeChunkMax) :
    ∃ req, writeSectorRequest off chunk = .ok req ∧ req.Carries off chunk := by
  have fits : chunk.length < 256 ^ 4 := by
    rw [writeChunkMax] at short
    omega
  have blank : (List.replicate writeReqTotal (0 : UInt8)).length = 4096 := List.length_replicate
  obtain ⟨buf, first⟩ :
      ∃ buf, Struct.packInto 4 (List.replicate writeReqTotal 0) 0 off = some buf :=
    ⟨_, Struct.packInto_eq_some low (by omega)⟩
  have size := (Struct.length_packInto first).trans blank
  obtain ⟨buf', second⟩ : ∃ buf', Struct.packInto 4 buf 4 chunk.length = some buf' :=
    ⟨_, Struct.packInto_eq_some fits (by omega)⟩
  have size' := (Struct.length_packInto second).trans size
  have made : writeSectorRequest off chunk = .ok ⟨writeSector,
      buf'.take writeHdr ++ chunk ++ buf'.drop (writeHdr + chunk.length)⟩ := by
    rw [writeSectorRequest, if_pos short]
    simp only [first, second, orRaise_some_bind]
  -- the header is the same whatever data follows it
  have header : ∀ o, o + 4 ≤ 8 → Struct.unpackFrom 4 (buf'.take writeHdr ++ chunk
      ++ buf'.drop (writeHdr + chunk.length)) o = Struct.unpackFrom 4 buf' o := by
    intro o inside
    have before : o + 4 ≤ (buf'.take writeHdr).length := by
      rw [List.length_take, size', writeHdr]
      omega
    rw [List.append_assoc, Struct.unpackFrom_append_left _ _ _ _ before]
    exact Struct.unpackFrom_take _ _ _ _ inside (by rw [size', writeHdr]; decide)
  have start : (buf'.take writeHdr).length = 8 := by
    rw [List.length_take, size', writeHdr]
    decide
  have body := Struct.slice_append (buf'.take writeHdr) chunk (buf'.drop (writeHdr + chunk.length))
  rw [start] at body
  refine ⟨_, made, ⟨rfl, ?_, ?_⟩, ?_, body⟩
  · rw [header 0 (by decide), Struct.unpackFrom_packInto_of_apart second 4 0 (.inl (by decide))]
    exact Struct.unpackFrom_packInto first
  · rw [header 4 (by decide)]
    exact Struct.unpackFrom_packInto second
  · rw [writeChunkMax] at short
    rw [List.length_append, List.length_append, start, List.length_drop, size', writeHdr]
    omega

/-- A number that a field of four bytes can hold. -/
def U32 (v : ℤ) : Prop := 0 ≤ v ∧ v < 2 ^ 32

instance (v : ℤ) : Decidable (U32 v) := inferInstanceAs (Decidable (_ ∧ _))

theorem packIntInto_cases (buf : List UInt8) (off : ℕ) (v : ℤ) (room : off + 4 ≤ buf.length) :
    (U32 v ∧ ∃ buf', packIntInto buf off v = some buf' ∧
        Struct.packInto 4 buf off v.toNat = some buf') ∨
      ¬ U32 v ∧ packIntInto buf off v = none := by
  rw [packIntInto]
  by_cases sign : 0 ≤ v
  · rw [if_pos sign]
    by_cases fits : v.toNat < 256 ^ 4
    · exact .inl ⟨⟨sign, by omega⟩, _, Struct.packInto_eq_some fits room,
        Struct.packInto_eq_some fits room⟩
    · exact .inr ⟨fun u32 => fits (by have := u32.2; omega), if_neg fun good => fits good.1⟩
  · exact .inr ⟨fun u32 => sign u32.1, if_neg sign⟩

/-- The loop of the commit request: the blocks from entry `k` on are written, and no other field,
or one of them does not fit. -/
theorem packBlocks_cases (blocks : List ℤ) (k : ℕ) (buf : List UInt8)
    (room : 8 + 4 * (k + blocks.length) ≤ buf.length) :
    ((∀ v ∈ blocks, U32 v) ∧ ∃ buf',
        (blocks.zipIdx k).foldlM (fun buf (v, i) => packIntInto buf (8 + 4 * i) v) buf = some buf' ∧
        buf'.length = buf.length ∧
        (∀ i v, blocks[i]? = some v → Struct.unpackFrom 4 buf' (8 + 4 * (k + i)) = some v.toNat) ∧
        ∀ o, o + 4 ≤ 8 + 4 * k ∨ 8 + 4 * (k + blocks.length) ≤ o →
          Struct.unpackFrom 4 buf' o = Struct.unpackFrom 4 buf o) ∨
      (∃ v ∈ blocks, ¬ U32 v) ∧
        (blocks.zipIdx k).foldlM (fun buf (v, i) => packIntInto buf (8 + 4 * i) v) buf = none := by
  induction blocks generalizing k buf with
  | nil => exact .inl ⟨by simp, buf, rfl, rfl, by simp, fun _ _ => rfl⟩
  | cons v blocks ih =>
    rw [List.length_cons] at room
    simp only [List.zipIdx_cons, List.foldlM_cons]
    rcases packIntInto_cases buf (8 + 4 * k) v (by omega) with
      ⟨fits, mid, written, packed⟩ | ⟨bad, failed⟩
    · have size := Struct.length_packInto packed
      simp only [written, Option.bind_eq_bind, Option.bind_some]
      rcases ih (k + 1) mid (by omega) with ⟨all, buf', folded, length, entries, others⟩ |
        ⟨⟨u, member, bad⟩, failed⟩
      · refine .inl ⟨?_, buf', folded, length.trans size, ?_, ?_⟩
        · simpa [fits] using all
        · intro i u at_i
          rcases i with _ | i
          · cases at_i
            rw [others _ (.inl (by omega))]
            exact Struct.unpackFrom_packInto packed
          · rw [show k + (i + 1) = k + 1 + i by omega]
            exact entries i u at_i
        · intro o apart
          rw [List.length_cons] at apart
          rw [others o (by omega)]
          exact Struct.unpackFrom_packInto_of_apart packed 4 o (by omega)
      · exact .inr ⟨⟨u, by simp [member], bad⟩, failed⟩
    · exact .inr ⟨⟨v, by simp, bad⟩, by simp only [failed, Option.bind_eq_bind, Option.bind_none]⟩

/-- A commit request: the length, the CRC and the first five blocks, zero where there are fewer. -/
structure Request.Commit (req : Request) (total crc : ℕ) (idbBlk : List ℤ) : Prop where
  cmd : req.cmd = endWrite
  size : req.buf.length = 28
  len : Struct.unpackFrom 4 req.buf 0 = some total
  crc : Struct.unpackFrom 4 req.buf 4 = some crc
  blocks : ∀ i < 5, Struct.unpackFrom 4 req.buf (8 + 4 * i) = some (idbBlk.getD i 0).toNat

/-- The commit request is made exactly if the blocks it takes fit their fields. -/
theorem endWriteRequest_cases (total crc : ℕ) (idbBlk : List ℤ) (short : total < 256 ^ 4)
    (low : crc < 256 ^ 4) :
    (∃ v ∈ idbBlk.take 5, ¬ U32 v) ∧ endWriteRequest total crc idbBlk = .error .structError ∨
      (∀ v ∈ idbBlk.take 5, U32 v) ∧ ∃ req, endWriteRequest total crc idbBlk = .ok req ∧
        req.Commit total crc idbBlk := by
  have blank : (List.replicate endReqLen (0 : UInt8)).length = 28 := List.length_replicate
  obtain ⟨buf, first⟩ : ∃ buf, Struct.packInto 4 (List.replicate endReqLen 0) 0 total = some buf :=
    ⟨_, Struct.packInto_eq_some short (by omega)⟩
  have size := (Struct.length_packInto first).trans blank
  obtain ⟨buf', second⟩ : ∃ buf', Struct.packInto 4 buf 4 crc = some buf' :=
    ⟨_, Struct.packInto_eq_some low (by omega)⟩
  have size' := (Struct.length_packInto second).trans size
  have taken : (idbBlk.take 5).length ≤ 5 := by simp
  rw [endWriteRequest]
  simp only [first, second, orRaise_some_bind]
  rcases packBlocks_cases (idbBlk.take 5) 0 buf' (by omega) with
    ⟨all, buf'', folded, length, entries, others⟩ | ⟨bad, failed⟩
  · rw [folded]
    refine .inr ⟨all, _, rfl, rfl, length.trans size', ?_, ?_, ?_⟩
    · rw [others 0 (by omega), Struct.unpackFrom_packInto_of_apart second 4 0 (.inl (by decide))]
      exact Struct.unpackFrom_packInto first
    · rw [others 4 (by omega)]
      exact Struct.unpackFrom_packInto second
    · intro i below
      cases at_i : idbBlk[i]? with
      | some v =>
        have entry := entries i v (by rw [List.getElem?_take, if_pos below, at_i])
        rwa [Nat.zero_add, ← show (idbBlk.getD i 0) = v by simp [at_i]] at entry
      | none =>
        -- a field beyond the list is still as it was in the blank buffer
        have beyond : idbBlk.length ≤ i := List.getElem?_eq_none_iff.1 at_i
        rw [others _ (.inr (by rw [List.length_take]; omega)),
          Struct.unpackFrom_packInto_of_apart second 4 _ (.inr (by omega)),
          Struct.unpackFrom_packInto_of_apart first 4 _ (.inr (by omega)),
          show idbBlk.getD i 0 = 0 by simp [at_i]]
        interval_cases i <;> rfl
  · rw [failed]
    exact .inl ⟨bad, rfl⟩

/-! ## The loop -/

theorem length_chunk (img : List UInt8) (off : ℕ) :
    (Struct.slice img off (off + writeChunkMax)).length = min writeChunkMax (img.length - off) := by
  simp only [Struct.slice, List.length_drop, List.length_take]
  omega

/-- One round of the loop: the chunk at `off` is sent, and the loop goes on if it was taken. -/
theorem accumulate_step (img : List UInt8) (dev : Device) (off : ℕ) (sent : List Request)
    (small : img.length ≤ 256000) (more : off < img.length) :
    ∃ req, req.Carries off (Struct.slice img off (off + writeChunkMax)) ∧
      accumulate img dev off sent = if dev.accepts sent.length then
          accumulate img dev (off + min writeChunkMax (img.length - off)) (sent ++ [req])
        else ⟨sent ++ [req], .error .osError⟩ := by
  have size := length_chunk img off
  obtain ⟨req, made, carries⟩ := writeSectorRequest_ok off
    (Struct.slice img off (off + writeChunkMax)) (by omega) (by omega)
  refine ⟨req, carries, ?_⟩
  rw [accumulate, if_pos more]
  simp only [doWriteSector, made, ioctl, size]
  cases dev.accepts sent.length <;> rfl

theorem accumulate_done (img : List UInt8) (dev : Device) (off : ℕ) (sent : List Request)
    (done : ¬ off < img.length) : accumulate img dev off sent = ⟨sent, .ok ()⟩ := by
  rw [accumulate, if_neg done]

/-- The next round starts at a multiple of the chunk size too, unless there is none. -/
theorem aligned_next (total off : ℕ) (aligned : off % writeChunkMax = 0) :
    (off + min writeChunkMax (total - off)) % writeChunkMax = 0 ∨
      total ≤ off + min writeChunkMax (total - off) := by
  rcases Nat.le_total writeChunkMax (total - off) with whole | last
  · exact .inl (by rw [Nat.min_eq_left whole, Nat.add_mod_right, aligned])
  · exact .inr (by omega)

/-- The loop, from what a round keeps: `P` of the offset and the requests sent so far still holds at
the end, which the loop reaches unless the device fails. -/
theorem accumulate_run (img : List UInt8) (dev : Device) (small : img.length ≤ 256000)
    {P : ℕ → List Request → Prop}
    (step : ∀ off sent req, off < img.length →
      req.Carries off (Struct.slice img off (off + writeChunkMax)) → P off sent →
        P (off + min writeChunkMax (img.length - off)) (sent ++ [req]))
    (off : ℕ) (sent : List Request) (start : P off sent) :
    ∃ ended, P ended (accumulate img dev off sent).sent ∧
      ((accumulate img dev off sent).result = .ok () ∧ img.length ≤ ended ∨
        (accumulate img dev off sent).result = .error .osError ∧ ∃ k, dev.accepts k = false) := by
  induction remaining : img.length - off using Nat.strong_induction_on generalizing off sent with
  | h n ih =>
    by_cases more : off < img.length
    · obtain ⟨req, carries, round⟩ := accumulate_step img dev off sent small more
      have next := step off sent req more carries start
      have advances : 0 < writeChunkMax := by decide
      rw [round]
      split_ifs with taken
      · exact ih _ (by omega) _ _ next rfl
      · exact ⟨_, next, .inr ⟨rfl, _, Bool.eq_false_of_not_eq_true taken⟩⟩
    · rw [accumulate_done img dev off sent more]
      exact ⟨off, start, .inl ⟨rfl, by omega⟩⟩

/-- Whatever the loop sends is a chunk at a multiple of the chunk size, inside the image. -/
theorem mem_accumulate (img : List UInt8) (dev : Device) (small : img.length ≤ 256000) :
    ∀ req ∈ (accumulate img dev 0 []).sent, ∃ o len, req.Chunk o len ∧
      o % writeChunkMax = 0 ∧ o < img.length ∧ len ≤ writeChunkMax := by
  let P (off : ℕ) (sent : List Request) : Prop :=
    (off % writeChunkMax = 0 ∨ img.length ≤ off) ∧ ∀ req ∈ sent, ∃ o len, req.Chunk o len ∧
      o % writeChunkMax = 0 ∧ o < img.length ∧ len ≤ writeChunkMax
  have step : ∀ off sent first, off < img.length →
      first.Carries off (Struct.slice img off (off + writeChunkMax)) → P off sent →
        P (off + min writeChunkMax (img.length - off)) (sent ++ [first]) := by
    rintro off sent first more carries ⟨aligned, earlier⟩
    have place : off % writeChunkMax = 0 := by omega
    have size := length_chunk img off
    refine ⟨aligned_next _ _ place, fun req member => ?_⟩
    rcases List.mem_append.1 member with old | new
    · exact earlier req old
    · rw [List.mem_singleton.1 new]
      exact ⟨off, _, carries.toChunk, place, more, by omega⟩
  obtain ⟨_, ⟨-, chunks⟩, -⟩ := accumulate_run img dev small step 0 [] ⟨.inl rfl, by simp⟩
  exact chunks

/-- A device that takes every request is sent every chunk, and the loop ends well. -/
theorem accumulate_accepted (img : List UInt8) (dev : Device) (small : img.length ≤ 256000)
    (accepts : ∀ k, dev.accepts k = true) :
    (accumulate img dev 0 []).result = .ok () ∧
      ∀ o, o < img.length → o % writeChunkMax = 0 →
        ∃ req ∈ (accumulate img dev 0 []).sent, ∃ len, req.Chunk o len := by
  let P (off : ℕ) (sent : List Request) : Prop :=
    (off % writeChunkMax = 0 ∨ img.length ≤ off) ∧ ∀ o < off, o < img.length →
      o % writeChunkMax = 0 → ∃ req ∈ sent, ∃ len, req.Chunk o len
  have step : ∀ off sent first, off < img.length →
      first.Carries off (Struct.slice img off (off + writeChunkMax)) → P off sent →
        P (off + min writeChunkMax (img.length - off)) (sent ++ [first]) := by
    rintro off sent first more carries ⟨aligned, earlier⟩
    have place : off % writeChunkMax = 0 := by omega
    refine ⟨aligned_next _ _ place, fun o before inside multiple => ?_⟩
    by_cases old : o < off
    · obtain ⟨req, member, chunk⟩ := earlier o old inside multiple
      exact ⟨req, List.mem_append_left _ member, chunk⟩
    · -- two different multiples of the chunk size are a chunk apart
      have here : o = off := by
        rw [writeChunkMax] at place multiple before
        omega
      exact ⟨first, by simp, _, here ▸ carries.toChunk⟩
  obtain ⟨ended, ⟨-, reached⟩, well | ⟨-, k, refused⟩⟩ :=
    accumulate_run img dev small step 0 [] ⟨.inl rfl, by simp⟩
  · exact ⟨well.1, fun o inside => reached o (Nat.lt_of_lt_of_le inside well.2) inside⟩
  · rw [accepts k] at refused
    cases refused

/-! ## The call -/

/-- The call on an image it admits. -/
theorem writeLoader_admitted (img : List UInt8) (idbBlk : List ℤ) (dry : Bool) (dev : Device)
    (admitted : Admitted img) :
    writeLoader img idbBlk dry dev = if dry then ⟨[], .ok ()⟩
      else if ¬ dev.opens then ⟨[], .error .osError⟩
      else match accumulate img dev 0 [] with
        | ⟨sent, .ok ()⟩ => doEndWrite dev img.length (rkCrc32 img 0) idbBlk sent
        | ⟨sent, .error e⟩ => ⟨sent, .error e⟩ := by
  have long : ¬ img.length < 4 := by
    intro short
    have missing : Struct.unpackFrom 4 img 0 = none := if_neg (by omega)
    rw [admitted.1] at missing
    cases missing
  rw [writeLoader, if_neg long, admitted.1]
  simp only [ne_eq, not_true_eq_false, if_false, if_neg (Nat.not_lt.2 admitted.2)]

/-- The CRC fits its field. -/
theorem rkCrc32_lt (data : List UInt8) : rkCrc32 data 0 < 256 ^ 4 := by
  have register := (foldl_crcByte_toNat data 0#32).2
  rw [show (0#32).toNat = 0 from rfl] at register
  rw [rkCrc32, register]
  exact BitVec.isLt _

/-- How the call on an image it admits can go. -/
inductive Call (img : List UInt8) (idbBlk : List ℤ) (dry : Bool) (dev : Device) : Outcome → Prop
  | dry (isDry : dry = true) : Call img idbBlk dry dev ⟨[], .ok ()⟩
  | closed (notDry : dry = false) (shut : dev.opens = false) :
    Call img idbBlk dry dev ⟨[], .error .osError⟩
  | broken {sent : List Request} {e : PyError} (run : accumulate img dev 0 [] = ⟨sent, .error e⟩) :
    Call img idbBlk dry dev ⟨sent, .error e⟩
  | unpacked {sent : List Request} (run : accumulate img dev 0 [] = ⟨sent, .ok ()⟩)
    (bad : ∃ v ∈ idbBlk.take 5, ¬ U32 v) : Call img idbBlk dry dev ⟨sent, .error .structError⟩
  | committed {sent : List Request} {req : Request}
    (run : accumulate img dev 0 [] = ⟨sent, .ok ()⟩) (fit : ∀ v ∈ idbBlk.take 5, U32 v)
    (commit : req.Commit img.length (rkCrc32 img 0) idbBlk) :
    Call img idbBlk dry dev (ioctl dev req sent)

theorem writeLoader_call (img : List UInt8) (idbBlk : List ℤ) (dry : Bool) (dev : Device)
    (admitted : Admitted img) : Call img idbBlk dry dev (writeLoader img idbBlk dry dev) := by
  have short : img.length < 256 ^ 4 := Nat.lt_of_le_of_lt admitted.2 (by decide)
  rw [writeLoader_admitted img idbBlk dry dev admitted]
  split_ifs with isDry isOpen
  · exact .dry isDry
  · rcases run : accumulate img dev 0 [] with ⟨sent, result⟩
    cases result with
    | error e => exact .broken run
    | ok _ =>
      simp only [doEndWrite]
      rcases endWriteRequest_cases img.length (rkCrc32 img 0) idbBlk short (rkCrc32_lt img) with
        ⟨bad, failed⟩ | ⟨fit, req, made, commit⟩
      · rw [failed]
        exact .unpacked run bad
      · rw [made]
        exact .committed run fit commit
  · exact .closed (by simpa using isDry) (by simpa using isOpen)

/-- Every request of the call is a chunk of the loop or the commit. -/
theorem mem_writeLoader (img : List UInt8) (idbBlk : List ℤ) (dry : Bool) (dev : Device)
    (admitted : Admitted img) (req : Request) (sent : req ∈ (writeLoader img idbBlk dry dev).sent) :
    (∃ o len, req.Chunk o len ∧ o % writeChunkMax = 0 ∧ o < img.length ∧ len ≤ writeChunkMax) ∨
      req.Commit img.length (rkCrc32 img 0) idbBlk := by
  have loop := mem_accumulate img dev admitted.2 req
  have call := writeLoader_call img idbBlk dry dev admitted
  generalize writeLoader img idbBlk dry dev = out at call sent
  cases call with
  | dry _ => cases sent
  | closed _ _ => cases sent
  | broken run =>
    rw [run] at loop
    exact .inl (loop sent)
  | unpacked run _ =>
    rw [run] at loop
    exact .inl (loop sent)
  | committed run _ commit =>
    rw [run] at loop
    rcases List.mem_append.1 sent with old | new
    · exact .inl (loop old)
    · rw [List.mem_singleton.1 new]
      exact .inr commit

/-- A device that opens and takes everything is sent every chunk of an image it is given. -/
theorem writeLoader_sends (img : List UInt8) (idbBlk : List ℤ) (dev : Device)
    (admitted : Admitted img) (opens : dev.opens = true) (accepts : ∀ k, dev.accepts k = true)
    (o : ℕ) (inside : o < img.length) (multiple : o % writeChunkMax = 0) :
    ∃ req ∈ (writeLoader img idbBlk false dev).sent, ∃ len, req.Chunk o len := by
  obtain ⟨well, reached⟩ := accumulate_accepted img dev admitted.2 accepts
  obtain ⟨req, sent, chunk⟩ := reached o inside multiple
  refine ⟨req, ?_, chunk⟩
  have call := writeLoader_call img idbBlk false dev admitted
  generalize writeLoader img idbBlk false dev = out at call
  cases call with
  | dry isDry => cases isDry
  | closed _ shut =>
    rw [opens] at shut
    cases shut
  | broken run =>
    rw [run] at well
    cases well
  | unpacked run _ =>
    rw [run] at sent
    exact sent
  | committed run _ _ =>
    rw [run] at sent
    exact List.mem_append_left _ sent

theorem Request.Chunk.taken_iff {req : Request} {off len : ℕ} (chunk : req.Chunk off len) :
    req.Taken ↔ off ≤ 0x3d800 ∧ len ≤ 4088 := by
  constructor
  · intro taken
    obtain ⟨dstOff, size, hoff, hlen, limits⟩ := taken.1 chunk.cmd
    rw [chunk.dstOff, Option.some.injEq] at hoff
    rw [chunk.len, Option.some.injEq] at hlen
    rwa [hoff, hlen]
  · intro limits
    refine ⟨fun _ => ⟨off, len, chunk.dstOff, chunk.len, limits⟩, fun commit => ?_⟩
    rw [chunk.cmd] at commit
    exact absurd commit (by decide)

/-- Every request the tool sends for an image it admits is one the handler takes, exactly if the
image ends before the chunk that would start beyond the limit on offsets. -/
theorem requests_taken_iff (img : List UInt8) (admitted : Admitted img) :
    (∀ idbBlk dry dev, ∀ req ∈ (writeLoader img idbBlk dry dev).sent, req.Taken) ↔
      img.length ≤ 253456 := by
  constructor
  · intro taken
    by_contra long
    obtain ⟨req, sent, len, chunk⟩ := writeLoader_sends img idbBlkDefault ⟨true, fun _ => true⟩
      admitted rfl (fun _ => rfl) 253456 (by omega) (by decide)
    have limits := chunk.taken_iff.1 (taken _ _ _ req sent)
    exact absurd limits.1 (by decide)
  · intro short idbBlk dry dev req sent
    rcases mem_writeLoader img idbBlk dry dev admitted req sent with
      ⟨o, len, chunk, multiple, inside, fits⟩ | commit
    · rw [writeChunkMax] at multiple fits
      -- the greatest multiple of 4088 below 253456 is 61 * 4088
      exact chunk.taken_iff.2 ⟨by omega, fits⟩
    · refine ⟨fun chunk => ?_, fun _ => ⟨_, commit.len, admitted.2⟩⟩
      rw [commit.cmd] at chunk
      exact absurd chunk (by decide)

theorem admitted_append (rest : List UInt8) (fits : rest.length ≤ 255996) :
    Admitted (Struct.leBytes 4 idbMagic ++ rest) := by
  refine ⟨Struct.unpackFrom_append 4 idbMagic (by decide) [] _, ?_⟩
  rw [List.length_append, Struct.length_leBytes]
  omega

/-- An image of one chunk and part of another. -/
def twoChunks : List UInt8 := Struct.leBytes 4 idbMagic ++ List.replicate 4996 0x5a

theorem length_twoChunks : twoChunks.length = 5000 := by
  rw [twoChunks, List.length_append, Struct.length_leBytes, List.length_replicate]

theorem admitted_twoChunks : Admitted twoChunks :=
  admitted_append _ (by rw [List.length_replicate]; decide)

/-- Both chunks are taken; the second is sent for offset 4088. -/
theorem requests_taken_iff_twoChunks : Admitted twoChunks ∧
    (∀ idbBlk dry dev, ∀ req ∈ (writeLoader twoChunks idbBlk dry dev).sent, req.Taken) ∧
    ∃ req ∈ (writeLoader twoChunks idbBlkDefault false ⟨true, fun _ => true⟩).sent,
      Struct.unpackFrom 4 req.buf 0 = some 4088 := by
  have taken := (requests_taken_iff twoChunks admitted_twoChunks).2
    (by rw [length_twoChunks]; decide)
  obtain ⟨req, sent, len, chunk⟩ := writeLoader_sends twoChunks idbBlkDefault
    ⟨true, fun _ => true⟩ admitted_twoChunks rfl (fun _ => rfl) 4088
    (by rw [length_twoChunks]; decide) (by decide)
  exact ⟨admitted_twoChunks, taken, req, sent, chunk.dstOff⟩

/-- The longest image admitted: 500 sectors. -/
def longestImage : List UInt8 := Struct.leBytes 4 idbMagic ++ List.replicate 255996 0

theorem admitted_longestImage : Admitted longestImage :=
  admitted_append _ (by rw [List.length_replicate])

/-- The last chunk of the longest image is sent for offset 253456. -/
theorem longestImage_overruns :
    Admitted longestImage ∧
      ∃ req ∈ (writeLoader longestImage idbBlkDefault false ⟨true, fun _ => true⟩).sent,
        Struct.unpackFrom 4 req.buf 0 = some 253456 ∧ ¬ req.Taken := by
  have size : longestImage.length = 256000 := by
    rw [longestImage, List.length_append, Struct.length_leBytes, List.length_replicate]
  obtain ⟨req, sent, len, chunk⟩ := writeLoader_sends longestImage idbBlkDefault
    ⟨true, fun _ => true⟩ admitted_longestImage rfl (fun _ => rfl) 253456 (by omega) (by decide)
  refine ⟨admitted_longestImage, req, sent, chunk.dstOff, fun taken => ?_⟩
  exact absurd (chunk.taken_iff.1 taken).1 (by decide)

/-! ## Refusals -/

/-- An image that is not admitted is refused before anything is sent. -/
theorem writeLoader_refused (img : List UInt8) (idbBlk : List ℤ) (dry : Bool) (dev : Device)
    (rejected : ¬ Admitted img) :
    ∃ message, writeLoader img idbBlk dry dev = ⟨[], .error (.systemExit message)⟩ := by
  rw [writeLoader]
  by_cases short : img.length < 4
  · exact ⟨_, by rw [if_pos short]⟩
  · have word : Struct.unpackFrom 4 img 0 = some (Struct.leNat (Struct.slice img 0 (0 + 4))) :=
      if_pos (by omega)
    rw [if_neg short, word]
    by_cases magic : Struct.leNat (Struct.slice img 0 (0 + 4)) = idbMagic
    · have long : 256000 < img.length := by
        by_contra fits
        exact rejected ⟨by rw [word, magic], by omega⟩
      simp only [magic, ne_eq, not_true_eq_false, if_false, if_pos long]
      exact ⟨_, rfl⟩
    · simp only [ne_eq, magic, not_false_eq_true, if_true]
      exact ⟨_, rfl⟩

/-- The tool refuses an image exactly if it is not one it admits. -/
theorem refused_iff_not_admitted (img : List UInt8) (idbBlk : List ℤ) (dry : Bool) (dev : Device) :
    (∃ message, (writeLoader img idbBlk dry dev).result = .error (.systemExit message)) ↔
      ¬ Admitted img := by
  constructor
  · rintro ⟨message, refused⟩ admitted
    have loop := accumulate_run img dev admitted.2 (P := fun _ _ => True)
      (fun _ _ _ _ _ _ => trivial) 0 [] trivial
    have call := writeLoader_call img idbBlk dry dev admitted
    generalize writeLoader img idbBlk dry dev = out at call refused
    cases call with
    | dry _ => cases refused
    | closed _ _ => cases refused
    | broken run =>
      -- the device is the only one to end the loop early
      rw [run] at loop
      obtain ⟨_, -, ⟨well, -⟩ | ⟨failed, -⟩⟩ := loop
      · cases well
      · rw [refused] at failed
        cases failed
    | unpacked _ _ => cases refused
    | committed _ _ _ =>
      simp only [ioctl] at refused
      split at refused <;> cases refused
  · intro rejected
    obtain ⟨message, refused⟩ := writeLoader_refused img idbBlk dry dev rejected
    exact ⟨message, by rw [refused]⟩

end RkNand.WriteLoader
