import RkNand.Lib.ScatterGather

/-!
# One request (`do_blktrans_all_request`)

A request is a run of contiguous bios; the driver turns it into one call of the FTL.  READ and WRITE
go through `nand_dev_transfer` with the length of the whole request and the offset of the device,
over the caller's own memory if that is one run of low memory and over the bounce buffer otherwise.
DISCARD goes straight to `FtlDiscard` with the sector of the request and the length of its first
bio, and is completed as a whole all the same: `completed_actsOn_iff`.
-/

namespace RkNand.Blk

/-! ## Requests -/

inductive ReqOp where
  | read
  | write
  | discard
  | other
  deriving DecidableEq

/-- `struct bio_vec`. -/
structure Segment where
  page : ℕ
  highmem : Bool
  offset : ℕ
  len : ℕ
  deriving DecidableEq

/-- A bio: its size in bytes, and its segments if it carries data. -/
structure Bio where
  size : ℕ
  segs : List Segment
  deriving DecidableEq

/-- `struct request` as the block layer hands it over: a non-empty run of bios of whole sectors,
whose segments, for a transfer, make up their sizes. -/
structure Request where
  op : ReqOp
  pos : ℕ
  bios : List Bio
  bios_ne_nil : bios ≠ []
  whole : ∀ b ∈ bios, 0 < b.size ∧ 512 ∣ b.size
  filled : op = .read ∨ op = .write → ∀ b ∈ bios, (b.segs.map Segment.len).sum = b.size
  dataLen_lt : (bios.map Bio.size).sum < 2 ^ 32
  end_lt : pos + (bios.map Bio.size).sum / 512 < 2 ^ 64

namespace Request

variable (req : Request)

/-- `__data_len`. -/
def dataLen : ℕ := (req.bios.map Bio.size).sum

/-- The length of the request in sectors. -/
def nsectors : ℕ := req.dataLen / 512

/-- What `rq_for_each_segment` goes through. -/
def segments : List Segment := req.bios.flatMap Bio.segs

/-- `blk_rq_cur_bytes`: the first segment of a transfer, the first bio of a discard. -/
def curBytes : ℕ :=
  match req.op with
  | .discard => (req.bios.head?.map Bio.size).getD 0
  | _ => (req.segments.head?.map Segment.len).getD 0

end Request

/-! ## Memory -/

/-- Kernel memory by linear address. -/
abbrev Memory := ℕ → UInt8

/-- Where the bytes of a page stand: `page_address` of a low page, `kmap_atomic` of any. -/
def pageAddress (page : ℕ) : ℕ := 0xC0000000 + 4096 * page

def memcpy (mem : Memory) (dst src n : ℕ) : Memory := ScatterGather.copy mem dst src n

def bytesAt (mem : Memory) (a n : ℕ) : List UInt8 := ScatterGather.read mem ⟨a, n⟩

/-- `req_check_buffer_align`: the start of the segments, if they are one run of low memory. -/
def reqCheckBufferAlign : List Segment → (firstbuf nextbuffer : ℕ) → Option ℕ
  | [], firstbuf, _ => some firstbuf
  | bv :: rest, firstbuf, nextbuffer =>
      if bv.highmem then none
      else
        let buffer := pageAddress bv.page + bv.offset
        if buffer = 0 then none
        else if nextbuffer ≠ 0 ∧ nextbuffer ≠ buffer then none
        else reqCheckBufferAlign rest (if firstbuf = 0 then buffer else firstbuf) (buffer + bv.len)

/-- The bounce buffer is copied out to the segments, or the segments into it. -/
def copyOut (mem : Memory) : List Segment → ℕ → Memory
  | [], _ => mem
  | bv :: rest, p =>
      copyOut (memcpy mem (pageAddress bv.page + bv.offset) p bv.len) rest (p + bv.len)

@[inherit_doc copyOut]
def copyIn (mem : Memory) : List Segment → ℕ → Memory
  | [], _ => mem
  | bv :: rest, p =>
      copyIn (memcpy mem p (pageAddress bv.page + bv.offset) bv.len) rest (p + bv.len)

/-! ## The driver -/

inductive BlkStatus where
  | ok
  | ioerr
  deriving DecidableEq

/-- `struct nand_blk_dev`; the capacity of the disk is `size`. -/
structure NandBlkDev where
  size : UInt32
  offSize : UInt32
  readonly : Bool
  writeonly : Bool
  disableAccess : Bool

/-- A call of the FTL: sectors, and the bytes handed to `FtlWrite`. -/
inductive FtlCall where
  | read (start nsect : UInt32)
  | write (start nsect : UInt32) (data : List UInt8)
  | discard (start nsect : UInt32)

/-- What the FTL does with a call: its return code, and the bytes `FtlRead` leaves in the buffer. -/
structure FtlAnswer where
  ret : ℤ
  data : ℕ → UInt8

def FtlAnswer.status (ans : FtlAnswer) : BlkStatus := if ans.ret = 0 then .ok else .ioerr

/-- What a request led to. -/
structure Outcome where
  status : BlkStatus
  calls : List FtlCall
  mem : Memory

/-- The access check of `nand_dev_transfer`. -/
def NandBlkDev.refuses (dev : NandBlkDev) (cmd : ReqOp) : Bool :=
  dev.disableAccess || (decide (cmd = .write) && dev.readonly) ||
    (decide (cmd = .read) && dev.writeonly)

/-- `nand_dev_transfer`. -/
def nandDevTransfer (dev : NandBlkDev) (start nsector : UInt32) (buf : ℕ) (cmd : ReqOp)
    (mem : Memory) (ans : FtlAnswer) : Outcome :=
  if dev.refuses cmd then ⟨.ioerr, [], mem⟩
  else
    let start := start + dev.offSize
    match cmd with
    | .read =>
        ⟨ans.status, [.read start nsector],
          ScatterGather.fill mem buf (512 * nsector.toNat) ans.data⟩
    | .write =>
        ⟨ans.status, [.write start nsector (bytesAt mem buf (512 * nsector.toNat))], mem⟩
    | _ => ⟨.ioerr, [], mem⟩

/-- `do_blktrans_all_request`, with `mtd_read_temp_buffer` at `temp`. -/
def doBlktransAllRequest (dev : NandBlkDev) (req : Request) (temp : ℕ) (mem : Memory)
    (ans : FtlAnswer) : Outcome :=
  let block := UInt32.ofNat req.pos
  let nsect := UInt32.ofNat (req.curBytes / 512)
  let totleNsect := UInt32.ofNat (req.dataLen / 512)
  if req.pos + req.curBytes / 512 > dev.size.toNat then ⟨.ioerr, [], mem⟩
  else
    match req.op with
    | .discard => ⟨ans.status, [.discard block nsect], mem⟩
    | .read =>
        let buf := (reqCheckBufferAlign req.segments 0 0).getD temp
        let out := nandDevTransfer dev block totleNsect buf .read mem ans
        if buf = temp then { out with mem := copyOut out.mem req.segments buf } else out
    | .write =>
        let buf := (reqCheckBufferAlign req.segments 0 0).getD temp
        let mem := if buf = temp then copyIn mem req.segments buf else mem
        nandDevTransfer dev block totleNsect buf .write mem ans
    | .other => ⟨.ioerr, [], mem⟩

/-- What the block layer is told about a request: `blk_update_request`. -/
structure Completion where
  status : BlkStatus
  bytes : ℕ

/-- The serving of one request in `rk_nand_blktrans_work`. -/
def serve (dev : NandBlkDev) (req : Request) (temp : ℕ) (mem : Memory) (ans : FtlAnswer) :
    Outcome × Completion :=
  let res := doBlktransAllRequest dev req temp mem ans
  (res, ⟨res.status, req.dataLen⟩)

/-! ## What a completed request acted on -/

namespace FtlCall

def op : FtlCall → ReqOp
  | read .. => .read
  | write .. => .write
  | discard .. => .discard

def start : FtlCall → UInt32
  | read s _ | write s _ _ | discard s _ => s

def nsect : FtlCall → UInt32
  | read _ n | write _ n _ | discard _ n => n

end FtlCall

/-- One call, of the request's own kind, on the sectors of the request within the device. -/
def ActsOn (dev : NandBlkDev) (req : Request) (calls : List FtlCall) : Prop :=
  ∃ call, calls = [call] ∧ call.op = req.op ∧ call.start.toNat = dev.offSize.toNat + req.pos ∧
    call.nsect.toNat = req.nsectors

/-- The requests whose call is right: a transfer that starts below `2 ^ 32`, a discard of a single
bio on a device without an offset. -/
def InPlace (dev : NandBlkDev) (req : Request) : Prop :=
  match req.op with
  | .discard => dev.offSize = 0 ∧ req.bios.length = 1
  | _ => dev.offSize.toNat + req.pos < 2 ^ 32

variable {dev : NandBlkDev} {req : Request} {temp : ℕ} {mem : Memory} {ans : FtlAnswer}

theorem nandDevTransfer_ok {start nsector : UInt32} {buf : ℕ} {cmd : ReqOp}
    (ok : (nandDevTransfer dev start nsector buf cmd mem ans).status = .ok) :
    ∃ call, (nandDevTransfer dev start nsector buf cmd mem ans).calls = [call] ∧ call.op = cmd ∧
      call.start = start + dev.offSize ∧ call.nsect = nsector := by
  unfold nandDevTransfer at ok ⊢
  by_cases refused : dev.refuses cmd
  · rw [if_pos refused] at ok
    cases ok
  · rw [if_neg refused] at ok ⊢
    cases cmd with
    | read => exact ⟨_, rfl, rfl, rfl, rfl⟩
    | write => exact ⟨_, rfl, rfl, rfl, rfl⟩
    | discard => cases ok
    | other => cases ok

/-- The sectors a request is passed on with: of the first bio for a discard, else of the whole. -/
def passedOn (dev : NandBlkDev) (req : Request) : UInt32 × UInt32 :=
  match req.op with
  | .discard => (UInt32.ofNat req.pos, UInt32.ofNat (req.curBytes / 512))
  | _ => (UInt32.ofNat req.pos + dev.offSize, UInt32.ofNat (req.dataLen / 512))

theorem doBlktransAllRequest_ok (ok : (doBlktransAllRequest dev req temp mem ans).status = .ok) :
    req.pos + req.curBytes / 512 ≤ dev.size.toNat ∧
      ∃ call, (doBlktransAllRequest dev req temp mem ans).calls = [call] ∧ call.op = req.op ∧
        (call.start, call.nsect) = passedOn dev req := by
  unfold doBlktransAllRequest at ok ⊢
  by_cases range : req.pos + req.curBytes / 512 > dev.size.toNat
  · rw [if_pos range] at ok
    cases ok
  rw [if_neg range] at ok ⊢
  refine ⟨not_lt.1 range, ?_⟩
  unfold passedOn
  cases hop : req.op with
  | discard => exact ⟨.discard _ _, rfl, rfl, rfl⟩
  | read =>
    simp only [hop] at ok ⊢
    split_ifs at ok ⊢
    all_goals
      obtain ⟨call, calls, op, start, nsect⟩ := nandDevTransfer_ok ok
      exact ⟨call, calls, op, by rw [start, nsect]⟩
  | write =>
    simp only [hop] at ok ⊢
    obtain ⟨call, calls, op, start, nsect⟩ := nandDevTransfer_ok ok
    exact ⟨call, calls, op, by rw [start, nsect]⟩
  | other =>
    simp only [hop] at ok
    cases ok

theorem dvd_sum_size {bios : List Bio} (whole : ∀ b ∈ bios, 0 < b.size ∧ 512 ∣ b.size) :
    512 ∣ (bios.map Bio.size).sum := by
  apply List.dvd_sum
  intro n hn
  obtain ⟨b, hb, rfl⟩ := List.mem_map.1 hn
  exact (whole b hb).2

/-- The first bio is all of the request only if there is no other. -/
theorem Request.head_sectors_eq_iff {b : Bio} {rest : List Bio} (h : req.bios = b :: rest) :
    b.size / 512 = req.nsectors ↔ rest = [] := by
  have whole := h ▸ req.whole
  rw [List.forall_mem_cons] at whole
  rw [nsectors, dataLen, h, List.map_cons, List.sum_cons]
  constructor
  · intro same
    cases rest with
    | nil => rfl
    | cons c rest =>
      have hc := (whole.2 c (by simp)).1
      have dvd := dvd_sum_size whole.2
      have := whole.1.2
      rw [List.map_cons, List.sum_cons] at dvd same
      omega
  · rintro rfl
    simp

theorem Request.curBytes_discard {b : Bio} {rest : List Bio} (hop : req.op = .discard)
    (h : req.bios = b :: rest) : req.curBytes = b.size := by
  simp [curBytes, hop, h]

theorem toNat_pos (range : req.pos < 2 ^ 32) : (UInt32.ofNat req.pos).toNat = req.pos := by
  rw [UInt32.toNat_ofNat']
  exact Nat.mod_eq_of_lt range

/-- A discard is passed on with its own sectors if it has no offset to add and no second bio. -/
theorem passedOn_discard_iff (hop : req.op = .discard) (range : req.pos < 2 ^ 32) :
    (passedOn dev req).1.toNat = dev.offSize.toNat + req.pos ∧
        (passedOn dev req).2.toNat = req.nsectors ↔
      dev.offSize = 0 ∧ req.bios.length = 1 := by
  obtain ⟨b, rest, hbios⟩ := List.exists_cons_of_ne_nil req.bios_ne_nil
  have first : b.size ≤ req.dataLen := by
    rw [Request.dataLen, hbios, List.map_cons, List.sum_cons]
    exact Nat.le_add_right _ _
  have nsect : (UInt32.ofNat (b.size / 512)).toNat = b.size / 512 := by
    have len : req.dataLen < 2 ^ 32 := req.dataLen_lt
    rw [UInt32.toNat_ofNat']
    exact Nat.mod_eq_of_lt (by omega)
  have zero : dev.offSize = 0 ↔ dev.offSize.toNat = 0 := by
    rw [← UInt32.toNat_inj]
    rfl
  simp only [passedOn, hop, Request.curBytes_discard hop hbios]
  rw [toNat_pos range, nsect, Request.head_sectors_eq_iff hbios, hbios, zero]
  simp only [List.length_cons, Nat.add_eq_right, List.length_eq_zero_iff]
  exact and_congr_left fun _ => by omega

/-- A transfer is passed on with its own sectors if its start does not wrap. -/
theorem passedOn_transfer_iff (hop : req.op ≠ .discard) (range : req.pos < 2 ^ 32) :
    (passedOn dev req).1.toNat = dev.offSize.toNat + req.pos ∧
        (passedOn dev req).2.toNat = req.nsectors ↔
      dev.offSize.toNat + req.pos < 2 ^ 32 := by
  have nsect : (UInt32.ofNat (req.dataLen / 512)).toNat = req.nsectors := by
    have len : req.dataLen < 2 ^ 32 := req.dataLen_lt
    rw [UInt32.toNat_ofNat', Request.nsectors]
    exact Nat.mod_eq_of_lt (by omega)
  have wraps : (UInt32.ofNat req.pos + dev.offSize).toNat =
      (req.pos + dev.offSize.toNat) % 2 ^ 32 := by
    rw [UInt32.toNat_add, toNat_pos range]
  unfold passedOn
  simp only
  rw [nsect, wraps]
  omega

/-- A request that is completed without error, as a whole, has been carried out on exactly its own
sectors if and only if it is in place. -/
theorem completed_actsOn_iff (dev : NandBlkDev) (req : Request) (temp : ℕ) (mem : Memory)
    (ans : FtlAnswer) (completed : (serve dev req temp mem ans).2 = ⟨.ok, req.dataLen⟩) :
    ActsOn dev req (serve dev req temp mem ans).1.calls ↔ InPlace dev req := by
  have ok : (doBlktransAllRequest dev req temp mem ans).status = .ok :=
    congrArg Completion.status completed
  obtain ⟨fits, call, calls, op, passed⟩ := doBlktransAllRequest_ok ok
  have range : req.pos < 2 ^ 32 := by
    have := dev.size.toNat_lt
    omega
  have actsOn : ActsOn dev req (serve dev req temp mem ans).1.calls ↔
      (passedOn dev req).1.toNat = dev.offSize.toNat + req.pos ∧
        (passedOn dev req).2.toNat = req.nsectors := by
    rw [← passed]
    unfold serve ActsOn
    simp only [calls, List.cons.injEq, and_true]
    constructor
    · rintro ⟨c, rfl, -, same⟩
      exact same
    · exact fun same => ⟨call, rfl, op, same⟩
  rw [actsOn]
  unfold InPlace
  by_cases hop : req.op = .discard
  · rw [passedOn_discard_iff hop range]
    simp only [hop]
  · rw [passedOn_transfer_iff hop range]
    split
    · contradiction
    · rfl

/-- A whole disk of `2 ^ 20` sectors. -/
def wholeDisk : NandBlkDev := ⟨0x100000, 0, false, false, false⟩

/-- Two contiguous bios of 64 sectors, merged into one discard. -/
def mergedDiscard : Request where
  op := .discard
  pos := 2048
  bios := [⟨32768, []⟩, ⟨32768, []⟩]
  bios_ne_nil := by decide
  whole := by decide
  filled := by decide
  dataLen_lt := by decide
  end_lt := by decide

/-- A read of eight sectors into one page. -/
def pageRead : Request where
  op := .read
  pos := 2048
  bios := [⟨4096, [⟨7, false, 0, 4096⟩]⟩]
  bios_ne_nil := by decide
  whole := by decide
  filled := by decide
  dataLen_lt := by decide
  end_lt := by decide

theorem completed_actsOn_pageRead :
    (serve wholeDisk pageRead 0xD0000000 (fun _ => 0) ⟨0, fun _ => 1⟩).2 =
        ⟨.ok, pageRead.dataLen⟩ ∧
      ActsOn wholeDisk pageRead
        (serve wholeDisk pageRead 0xD0000000 (fun _ => 0) ⟨0, fun _ => 1⟩).1.calls := by
  have completed : (serve wholeDisk pageRead 0xD0000000 (fun _ => 0) ⟨0, fun _ => 1⟩).2 =
      ⟨.ok, pageRead.dataLen⟩ := rfl
  have inPlace : InPlace wholeDisk pageRead := show 0 + 2048 < 2 ^ 32 by norm_num
  exact ⟨completed, (completed_actsOn_iff _ _ _ _ _ completed).2 inPlace⟩

/-- The merged discard is completed as a whole, but only its first 64 sectors were discarded. -/
theorem mergedDiscard_shortened :
    (serve wholeDisk mergedDiscard 0xD0000000 (fun _ => 0) ⟨0, fun _ => 0⟩).2 =
        ⟨.ok, mergedDiscard.dataLen⟩ ∧
      (serve wholeDisk mergedDiscard 0xD0000000 (fun _ => 0) ⟨0, fun _ => 0⟩).1.calls =
        [.discard 2048 64] ∧
      ¬ ActsOn wholeDisk mergedDiscard
        (serve wholeDisk mergedDiscard 0xD0000000 (fun _ => 0) ⟨0, fun _ => 0⟩).1.calls := by
  refine ⟨rfl, rfl, ?_⟩
  rintro ⟨call, calls, -, -, nsect⟩
  obtain rfl : FtlCall.discard 2048 64 = call := (List.cons.inj calls).1
  exact absurd nsect (by decide)

end RkNand.Blk
