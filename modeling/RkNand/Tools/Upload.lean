import RkNand.Lib.ScatterGather
import RkNand.Tools.WriteLoader

/-!
# What the loader writer hands to the kernel

The handler's view of the requests of `rknand-write-loader.py`: a `WRITE_SECTOR` request is copied
into the loader buffer, and an `END_WRITE` request is a length, a CRC and five blocks.  The chunks
put the image together whatever the buffer held before (`upload_reassembles`).  The block list is
not looked at before the chunks are in the kernel, so only a list of five numbers of 32 bits arrives
as it was given (`commit_carries_blocks_iff`).
-/

namespace RkNand.WriteLoader

open Python ScatterGather

/-! ## The handler's view -/

/-- `struct write_req`. -/
structure WriteReq where
  dstOff : ℕ
  len : ℕ
  data : List UInt8

/-- `struct end_req`. -/
structure EndReq where
  len : ℕ
  crc32 : ℕ
  idbBlk : List ℕ
deriving DecidableEq

/-- What a `WRITE_SECTOR` request holds. -/
def decodeWrite (buf : List UInt8) : Option WriteReq := do
  let dstOff ← Struct.unpackFrom 4 buf 0
  let len ← Struct.unpackFrom 4 buf 4
  pure ⟨dstOff, len, Struct.slice buf 8 4096⟩

/-- What an `END_WRITE` request holds. -/
def decodeEnd (buf : List UInt8) : Option EndReq := do
  let len ← Struct.unpackFrom 4 buf 0
  let crc32 ← Struct.unpackFrom 4 buf 4
  let idbBlk ← (List.range 5).mapM fun i => Struct.unpackFrom 4 buf (8 + 4 * i)
  pure ⟨len, crc32, idbBlk⟩

/-- `memcpy(loader_buf + dst_off, data, len)`. -/
def WriteReq.apply (loaderBuf : ℕ → UInt8) (req : WriteReq) : ℕ → UInt8 :=
  fill loaderBuf req.dstOff req.len fun i => req.data.getD i 0

/-- The loader buffer after the `WRITE_SECTOR` requests among those sent, in order. -/
def replay (loaderBuf : ℕ → UInt8) (sent : List Request) : Option (ℕ → UInt8) :=
  (sent.filter fun req => req.cmd = writeSector).foldlM
    (fun loaderBuf req => (decodeWrite req.buf).map (WriteReq.apply loaderBuf)) loaderBuf

/-! ## The chunks -/

theorem replay_concat (loaderBuf : ℕ → UInt8) (sent : List Request) {req : Request} {off : ℕ}
    {data : List UInt8} (carries : req.Carries off data) :
    replay loaderBuf (sent ++ [req]) = (replay loaderBuf sent).map fun before =>
      WriteReq.apply before ⟨off, data.length, Struct.slice req.buf 8 4096⟩ := by
  have decoded : decodeWrite req.buf = some ⟨off, data.length, Struct.slice req.buf 8 4096⟩ := by
    simp only [decodeWrite, carries.dstOff, carries.len, Option.bind_eq_bind, Option.bind_some]
    rfl
  have last : [req].filter (fun req => req.cmd = writeSector) = [req] := by simp [carries.cmd]
  rw [replay, replay, List.filter_append, last, List.foldlM_append]
  cases (sent.filter fun req => req.cmd = writeSector).foldlM
      (fun loaderBuf req => (decodeWrite req.buf).map (WriteReq.apply loaderBuf)) loaderBuf with
  | none => rfl
  | some before => simp [decoded]

/-- The bytes a chunk carries are where they were to go. -/
theorem read_apply_self (before : ℕ → UInt8) {req : Request} {off : ℕ} {data : List UInt8}
    (carries : req.Carries off data) (short : data.length ≤ writeChunkMax) :
    read (WriteReq.apply before ⟨off, data.length, Struct.slice req.buf 8 4096⟩)
      ⟨off, data.length⟩ = data := by
  rw [WriteReq.apply, read_fill]
  apply List.ext_getElem (by simp)
  intro i hi inside
  have byte : (Struct.slice req.buf 8 4096)[i]? = data[i]? := by
    conv_rhs => rw [← carries.data]
    rw [writeChunkMax] at short
    rw [Struct.slice, Struct.slice, List.getElem?_drop, List.getElem?_drop, List.getElem?_take,
      List.getElem?_take, if_pos (by omega), if_pos (by omega)]
  simp [byte, List.getElem?_eq_getElem inside]

/-- A chunk changes nothing before its offset. -/
theorem read_apply_before (before : ℕ → UInt8) (req : WriteReq) :
    read (req.apply before) ⟨0, req.dstOff⟩ = read before ⟨0, req.dstOff⟩ := by
  apply read_congr
  intro a inside
  apply fill_outside
  simp only [Range.Has] at inside ⊢
  omega

/-- The requests sent so far have put the first `off` bytes of the image into the loader buffer. -/
structure Loaded (loaderBuf : ℕ → UInt8) (img : List UInt8) (off : ℕ) (sent : List Request) :
    Prop where
  chunks : ∀ req ∈ sent, req.cmd = writeSector ∧ req.buf.length = 4096
  start : ∃ after, replay loaderBuf sent = some after ∧ read after ⟨0, off⟩ = img.take off

/-- One round of the loop loads one more chunk. -/
theorem Loaded.step {loaderBuf : ℕ → UInt8} {img : List UInt8} {off : ℕ} {sent : List Request}
    (loaded : Loaded loaderBuf img off sent) {req : Request}
    (carries : req.Carries off (Struct.slice img off (off + writeChunkMax))) :
    Loaded loaderBuf img (off + min writeChunkMax (img.length - off)) (sent ++ [req]) := by
  obtain ⟨before, replayed, prior⟩ := loaded.start
  have size := length_chunk img off
  have next := replay_concat loaderBuf sent carries
  rw [replayed, Option.map_some] at next
  refine ⟨?_, _, next, ?_⟩
  · intro r member
    rcases List.mem_append.1 member with old | new
    · exact loaded.chunks r old
    · rw [List.mem_singleton.1 new]
      exact ⟨carries.cmd, carries.size⟩
  · have chunk : (img.drop off).take (min writeChunkMax (img.length - off))
        = Struct.slice img off (off + writeChunkMax) := by
      rw [Struct.slice, List.drop_take, Nat.add_sub_cancel_left, ← List.length_drop,
        List.take_eq_take_min, Nat.min_assoc, Nat.min_self, ← List.take_eq_take_min]
    rw [read_append, Nat.zero_add, read_apply_before, prior, ← size,
      read_apply_self before carries (by omega), size, List.take_add, chunk]

theorem accumulate_loaded (img : List UInt8) (dev : Device) (small : img.length ≤ 256000)
    (loaderBuf : ℕ → UInt8) (sent : List Request) (run : accumulate img dev 0 [] = ⟨sent, .ok ()⟩) :
    Loaded loaderBuf img img.length sent := by
  have blank : Loaded loaderBuf img 0 [] := ⟨by simp, loaderBuf, rfl, rfl⟩
  obtain ⟨ended, ⟨inside, loaded⟩, ⟨-, reached⟩ | ⟨failed, -⟩⟩ := accumulate_run img dev small
    (P := fun off sent => off ≤ img.length ∧ Loaded loaderBuf img off sent)
    (fun off sent req more carries before => ⟨by omega, before.2.step carries⟩) 0 []
    ⟨Nat.zero_le _, blank⟩
  · rw [run] at loaded
    rwa [← Nat.le_antisymm inside reached]
  · rw [run] at failed
    cases failed

/-! ## The commit -/

theorem Request.Commit.decode {req : Request} {total crc : ℕ} {idbBlk : List ℤ}
    (commit : req.Commit total crc idbBlk) :
    decodeEnd req.buf
      = some ⟨total, crc, (List.range 5).map fun i => (idbBlk.getD i 0).toNat⟩ := by
  have blocks : (List.range 5).mapM (fun i => Struct.unpackFrom 4 req.buf (8 + 4 * i))
      = some ((List.range 5).map fun i => (idbBlk.getD i 0).toNat) := by
    simp only [show List.range 5 = [0, 1, 2, 3, 4] from rfl, List.mapM_cons, List.mapM_nil,
      commit.blocks 0 (by decide), commit.blocks 1 (by decide), commit.blocks 2 (by decide),
      commit.blocks 3 (by decide), commit.blocks 4 (by decide), Option.bind_eq_bind,
      Option.bind_some]
    rfl
  simp only [decodeEnd, commit.len, commit.crc, blocks, Option.bind_eq_bind, Option.bind_some]
  rfl

/-- A device that takes everything is sent the commit after the chunks. -/
theorem writeLoader_commits {img : List UInt8} {idbBlk : List ℤ} {dev : Device}
    (admitted : Admitted img) (opens : dev.opens = true) (accepts : ∀ k, dev.accepts k = true)
    (fit : ∀ v ∈ idbBlk.take 5, U32 v) :
    ∃ sent commit, accumulate img dev 0 [] = ⟨sent, .ok ()⟩ ∧
      commit.Commit img.length (rkCrc32 img 0) idbBlk ∧
      (writeLoader img idbBlk false dev).sent = sent ++ [commit] := by
  have well := (accumulate_accepted img dev admitted.2 accepts).1
  have call := writeLoader_call img idbBlk false dev admitted
  generalize writeLoader img idbBlk false dev = out at call
  cases call with
  | dry isDry => cases isDry
  | closed _ shut => simp [opens] at shut
  | broken run => simp [run] at well
  | unpacked _ bad =>
    obtain ⟨v, member, bad⟩ := bad
    exact absurd (fit v member) bad
  | committed run _ commit => exact ⟨_, _, run, commit, rfl⟩

/-- A commit among the requests is the last of them, after a loop that has ended well. -/
theorem commit_of_mem {img : List UInt8} {idbBlk : List ℤ} {dry : Bool} {dev : Device}
    (admitted : Admitted img) {commit : Request}
    (member : commit ∈ (writeLoader img idbBlk dry dev).sent) (isCommit : commit.cmd = endWrite) :
    ∃ sent, accumulate img dev 0 [] = ⟨sent, .ok ()⟩ ∧
      commit.Commit img.length (rkCrc32 img 0) idbBlk ∧
      (writeLoader img idbBlk dry dev).sent = sent ++ [commit] := by
  have chunk : ∀ {sent result}, accumulate img dev 0 [] = ⟨sent, result⟩ → commit ∉ sent := by
    intro sent result run old
    have loop := mem_accumulate img dev admitted.2 commit
    rw [run] at loop
    obtain ⟨o, len, asChunk, -⟩ := loop old
    rw [asChunk.cmd] at isCommit
    exact absurd isCommit (by decide)
  have call := writeLoader_call img idbBlk dry dev admitted
  generalize writeLoader img idbBlk dry dev = out at call member
  cases call with
  | dry _ => cases member
  | closed _ _ => cases member
  | broken run => exact absurd member (chunk run)
  | unpacked run _ => exact absurd member (chunk run)
  | committed run _ made =>
    rcases List.mem_append.1 member with old | new
    · exact absurd old (chunk run)
    · obtain rfl := List.mem_singleton.1 new
      exact ⟨_, run, made, rfl⟩

/-- The chunks put the image together in the loader buffer, whatever it held before: after a loop
that has ended well its first bytes are the image, and the commit carries their number and their
CRC. -/
theorem upload_reassembles (img : List UInt8) (idbBlk : List ℤ) (dry : Bool) (dev : Device)
    (loaderBuf : ℕ → UInt8) (admitted : Admitted img) :
    (∀ sent, accumulate img dev 0 [] = ⟨sent, .ok ()⟩ →
      (∀ req ∈ sent, req.cmd = writeSector ∧ req.buf.length = 4096) ∧
      ∃ after, replay loaderBuf sent = some after ∧ read after ⟨0, img.length⟩ = img) ∧
    ((∀ k, dev.accepts k = true) → ∃ sent, accumulate img dev 0 [] = ⟨sent, .ok ()⟩ ∧
      (dry = false → dev.opens = true → (∀ v ∈ idbBlk.take 5, U32 v) → ∃ commit,
        commit.cmd = endWrite ∧ (writeLoader img idbBlk dry dev).sent = sent ++ [commit])) ∧
    ∀ commit ∈ (writeLoader img idbBlk dry dev).sent, commit.cmd = endWrite →
      ∃ sent after blocks, accumulate img dev 0 [] = ⟨sent, .ok ()⟩ ∧
        (writeLoader img idbBlk dry dev).sent = sent ++ [commit] ∧
        replay loaderBuf sent = some after ∧
        decodeEnd commit.buf
          = some ⟨img.length, rkCrc32 (read after ⟨0, img.length⟩) 0, blocks⟩ := by
  have assembled : ∀ sent, accumulate img dev 0 [] = ⟨sent, .ok ()⟩ →
      (∀ req ∈ sent, req.cmd = writeSector ∧ req.buf.length = 4096) ∧
      ∃ after, replay loaderBuf sent = some after ∧ read after ⟨0, img.length⟩ = img := by
    intro sent run
    obtain ⟨chunks, after, replayed, start⟩ :=
      accumulate_loaded img dev admitted.2 loaderBuf sent run
    exact ⟨chunks, after, replayed, by rw [start, List.take_length]⟩
  refine ⟨assembled, ?_, ?_⟩
  · intro accepts
    have well := (accumulate_accepted img dev admitted.2 accepts).1
    refine ⟨(accumulate img dev 0 []).sent, by rw [← well], ?_⟩
    rintro rfl isOpen fit
    obtain ⟨sent, commit, run, made, all⟩ := writeLoader_commits admitted isOpen accepts fit
    exact ⟨commit, made.cmd, by rw [all, run]⟩
  · intro commit member isCommit
    obtain ⟨sent, run, made, all⟩ := commit_of_mem admitted member isCommit
    obtain ⟨-, after, replayed, start⟩ := assembled sent run
    exact ⟨sent, after, _, run, all, replayed, by rw [start]; exact made.decode⟩

/-- An image of 5000 bytes, sent in two chunks to a device that takes them. -/
theorem upload_reassembles_twoChunks :
    ∃ sent after, accumulate twoChunks ⟨true, fun _ => true⟩ 0 [] = ⟨sent, .ok ()⟩ ∧
      (∃ first ∈ sent, ∃ len, first.Chunk 0 len) ∧ (∃ second ∈ sent, ∃ len, second.Chunk 4088 len) ∧
      replay (fun _ => 0xff) sent = some after ∧ read after ⟨0, 5000⟩ = twoChunks := by
  obtain ⟨assembled, ended, -⟩ := upload_reassembles twoChunks idbBlkDefault false
    ⟨true, fun _ => true⟩ (fun _ => 0xff) admitted_twoChunks
  obtain ⟨sent, run, -⟩ := ended fun _ => rfl
  obtain ⟨-, after, replayed, start⟩ := assembled sent run
  have reached := (accumulate_accepted twoChunks ⟨true, fun _ => true⟩ admitted_twoChunks.2
    fun _ => rfl).2
  rw [run, length_twoChunks] at reached
  rw [length_twoChunks] at start
  exact ⟨sent, after, run, reached 0 (by decide) (by decide), reached 4088 (by decide) (by decide),
    replayed, start⟩

/-! ## The block list -/

/-- A list that fills `idb_blk[5]`. -/
def FiveU32 (idbBlk : List ℤ) : Prop := idbBlk.length = 5 ∧ ∀ v ∈ idbBlk, U32 v

/-- The commit carries the list that was given, and a list that it cannot carry is rejected before
anything is sent. -/
structure CommitFaithful (img : List UInt8) (idbBlk : List ℤ) : Prop where
  carried : ∀ dry dev, ∀ req ∈ (writeLoader img idbBlk dry dev).sent, req.cmd = endWrite →
    ∃ fields, decodeEnd req.buf = some fields ∧ fields.len = img.length ∧
      fields.crc32 = rkCrc32 img 0 ∧ fields.idbBlk.map Int.ofNat = idbBlk
  rejected : ¬ FiveU32 idbBlk → ∀ dev, (writeLoader img idbBlk false dev).sent = [] ∧
    ∃ e, (writeLoader img idbBlk false dev).result = .error e

theorem FiveU32.fields_eq {idbBlk : List ℤ} (five : FiveU32 idbBlk) :
    ((List.range 5).map fun i => (idbBlk.getD i 0).toNat).map Int.ofNat = idbBlk := by
  apply List.ext_getElem (by simp [five.1])
  intro i _ inside
  have sign := (five.2 _ (List.getElem_mem inside)).1
  simp [List.getElem?_eq_getElem inside, sign]

/-- The list arrives as it was given exactly for five numbers of 32 bits: no other list is rejected
in time. -/
theorem commit_carries_blocks_iff (img : List UInt8) (idbBlk : List ℤ) :
    CommitFaithful img idbBlk ↔ (Admitted img → FiveU32 idbBlk) := by
  constructor
  · intro faithful admitted
    by_contra other
    -- a device that takes everything has the first chunk by now
    have long : 0 < img.length := by
      by_contra empty
      have missing : Struct.unpackFrom 4 img 0 = none := if_neg (by omega)
      rw [admitted.1] at missing
      cases missing
    obtain ⟨req, sent, -⟩ := writeLoader_sends img idbBlk ⟨true, fun _ => true⟩ admitted rfl
      (fun _ => rfl) 0 long rfl
    rw [(faithful.rejected other _).1] at sent
    cases sent
  · intro five
    by_cases admitted : Admitted img
    · refine ⟨fun dry dev req member isCommit => ?_, fun other => absurd (five admitted) other⟩
      obtain ⟨-, -, commit, -⟩ := commit_of_mem admitted member isCommit
      exact ⟨_, commit.decode, rfl, rfl, (five admitted).fields_eq⟩
    · have refused := fun dry dev => writeLoader_refused img idbBlk dry dev admitted
      refine ⟨fun dry dev req member => ?_, fun _ dev => ?_⟩
      · obtain ⟨message, out⟩ := refused dry dev
        rw [out] at member
        cases member
      · obtain ⟨message, out⟩ := refused false dev
        exact ⟨by rw [out], _, by rw [out]⟩

/-- Two blocks are given, and block 0 is committed in the place of the other three. -/
theorem short_list_commits_block_zero :
    ∃ req ∈ (writeLoader [0x3b, 0x8c, 0xdc, 0xfc] [2, 3] false ⟨true, fun _ => true⟩).sent,
      req.cmd = endWrite ∧ (decodeEnd req.buf).map EndReq.idbBlk = some [2, 3, 0, 0, 0] := by
  have admitted : Admitted [0x3b, 0x8c, 0xdc, 0xfc] := by
    unfold Admitted
    decide
  have fit : ∀ v ∈ [(2 : ℤ), 3].take 5, U32 v := by decide
  have opens : (⟨true, fun _ => true⟩ : Device).opens = true := rfl
  obtain ⟨sent, commit, -, made, all⟩ := writeLoader_commits admitted opens (fun _ => rfl) fit
  refine ⟨commit, by simp [all], made.cmd, ?_⟩
  rw [made.decode]
  rfl

end RkNand.WriteLoader
