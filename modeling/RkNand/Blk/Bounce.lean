import RkNand.Blk.Request
import RkNand.Lib.ScatterGather

/-!
# The bounce buffer (`do_blktrans_all_request`)

A transfer works on the caller's own memory if its segments are one run of low memory, and on
`mtd_read_temp_buffer` otherwise, with the segments copied in before or out afterwards.  The copies
are the loops of `ScatterGather`, so both ways move the same bytes.
-/

namespace RkNand.Blk

open ScatterGather

/-! ## Segments as ranges of memory -/

/-- The memory of a segment. -/
def Segment.range (s : Segment) : Range := ⟨pageAddress s.page + s.offset, s.len⟩

/-- The memory of the segments of a request, in order. -/
def Request.ranges (req : Request) : List Range := req.segments.map Segment.range

/-- The size of `mtd_read_temp_buffer`: `MTD_RW_SECTORS` sectors. -/
def tempBufferSize : ℕ := 512 * 512

/-- A transfer as the block layer may split it: of at most 512 sectors, into segments of their own
memory, each inside one page and none of them in the bounce buffer. -/
structure SplitTransfer (req : Request) (temp : ℕ) : Prop where
  transfer : req.op = .read ∨ req.op = .write
  small : req.nsectors ≤ 512
  nonempty : ∀ s ∈ req.segments, 0 < s.len
  onePage : ∀ s ∈ req.segments, s.offset + s.len ≤ 4096
  disjoint : req.segments.Pairwise fun s t => s.range.Apart t.range
  clear : ∀ s ∈ req.segments, s.range.Apart ⟨temp, tempBufferSize⟩

/-- The segments are one run of low memory from address `a` on. -/
def OneRun : List Segment → ℕ → Prop
  | [], _ => True
  | s :: rest, a => s.highmem = false ∧ s.range.start = a ∧ OneRun rest (a + s.len)

theorem OneRun.adjacent {segs : List Segment} {a : ℕ} (run : OneRun segs a) :
    ∀ piece ∈ pieces (segs.map Segment.range) a, piece.2.start = piece.1 := by
  induction segs generalizing a with
  | nil => simp [pieces]
  | cons s segs ih =>
    intro piece member
    rcases List.mem_cons.1 member with rfl | later
    · exact run.2.1
    · exact ih run.2.2 piece later

theorem copyOut_eq_scatter (mem : Memory) (segs : List Segment) (p : ℕ) :
    copyOut mem segs p = scatter mem (segs.map Segment.range) p := by
  induction segs generalizing mem p with
  | nil => rfl
  | cons s segs ih => exact ih _ _

theorem copyIn_eq_gather (mem : Memory) (segs : List Segment) (p : ℕ) :
    copyIn mem segs p = gather mem (segs.map Segment.range) p := by
  induction segs generalizing mem p with
  | nil => rfl
  | cons s segs ih => exact ih _ _

/-! ## The choice of the buffer -/

theorem Segment.start_pos (s : Segment) : s.range.start ≠ 0 := by
  simp only [range, pageAddress]
  omega

/-- A segment the check goes past. -/
theorem reqCheckBufferAlign_cons {s : Segment} {segs : List Segment} {first next buf : ℕ}
    (chosen : reqCheckBufferAlign (s :: segs) first next = some buf) :
    s.highmem = false ∧ (next = 0 ∨ next = s.range.start) ∧
      reqCheckBufferAlign segs (if first = 0 then s.range.start else first)
        (s.range.start + s.len) = some buf := by
  simp only [reqCheckBufferAlign] at chosen
  split at chosen
  · cases chosen
  · rename_i low
    have positive : pageAddress s.page + s.offset ≠ 0 := s.start_pos
    rw [if_neg positive] at chosen
    split at chosen
    · cases chosen
    · rename_i follows
      exact ⟨by simpa using low, by tauto, chosen⟩

/-- Past the first segment, the check follows the end of the run so far. -/
theorem reqCheckBufferAlign_rest {segs : List Segment} {first next buf : ℕ} (started : first ≠ 0)
    (ended : next ≠ 0) (chosen : reqCheckBufferAlign segs first next = some buf) :
    buf = first ∧ OneRun segs next := by
  induction segs generalizing next with
  | nil => exact ⟨(Option.some.inj chosen).symm, trivial⟩
  | cons s segs ih =>
    obtain ⟨low, follows, rest⟩ := reqCheckBufferAlign_cons chosen
    have start : s.range.start = next := (follows.resolve_left ended).symm
    rw [if_neg started, start] at rest
    obtain ⟨same, run⟩ := ih (by omega) rest
    exact ⟨same, low, start, run⟩

/-- The direct buffer is chosen only for one run of low memory. -/
theorem oneRun_of_reqCheckBufferAlign {segs : List Segment} {buf : ℕ} (nonempty : segs ≠ [])
    (chosen : reqCheckBufferAlign segs 0 0 = some buf) : OneRun segs buf := by
  cases segs with
  | nil => exact absurd rfl nonempty
  | cons s segs =>
    obtain ⟨low, -, rest⟩ := reqCheckBufferAlign_cons chosen
    have positive := s.start_pos
    rw [if_pos rfl] at rest
    obtain ⟨same, run⟩ := reqCheckBufferAlign_rest positive (by omega) rest
    rw [same]
    exact ⟨low, rfl, run⟩

/-! ## Sizes -/

variable {req : Request} {temp : ℕ}

theorem SplitTransfer.total_ranges (split : SplitTransfer req temp) :
    total req.ranges = req.dataLen := by
  have lens : ∀ bios : List Bio, (∀ b ∈ bios, (b.segs.map Segment.len).sum = b.size) →
      total ((bios.flatMap Bio.segs).map Segment.range) = (bios.map Bio.size).sum := by
    intro bios filled
    induction bios with
    | nil => rfl
    | cons b bios ih =>
      rw [List.forall_mem_cons] at filled
      have head : total (b.segs.map Segment.range) = b.size := by
        rw [← filled.1, total, List.map_map]
        rfl
      rw [List.flatMap_cons, List.map_append, total, List.map_append, List.sum_append,
        List.map_cons, List.sum_cons]
      exact congrArg₂ (· + ·) head (ih filled.2)
  exact lens req.bios (req.filled split.transfer)

theorem Request.dataLen_pos (req : Request) : 0 < req.dataLen := by
  obtain ⟨b, member⟩ := List.exists_mem_of_ne_nil _ req.bios_ne_nil
  have below : b.size ≤ req.dataLen := List.single_le_sum (by simp) _ (List.mem_map_of_mem member)
  have positive := (req.whole b member).1
  omega

theorem SplitTransfer.segments_ne_nil (split : SplitTransfer req temp) : req.segments ≠ [] := by
  intro empty
  have positive := req.dataLen_pos
  rw [← split.total_ranges, Request.ranges, empty] at positive
  exact absurd positive (by decide)

/-- The length the FTL is called with, in bytes. -/
theorem Request.bytes_passed (req : Request) :
    512 * (UInt32.ofNat (req.dataLen / 512)).toNat = req.dataLen := by
  have whole : 512 ∣ req.dataLen := dvd_sum_size req.whole
  have small : req.dataLen < 2 ^ 32 := req.dataLen_lt
  rw [UInt32.toNat_ofNat', Nat.mod_eq_of_lt (by omega), Nat.mul_div_cancel' whole]

theorem SplitTransfer.dataLen_le (split : SplitTransfer req temp) :
    req.dataLen ≤ tempBufferSize := by
  have whole : 512 ∣ req.dataLen := dvd_sum_size req.whole
  have small := split.small
  rw [Request.nsectors] at small
  rw [tempBufferSize]
  omega

/-! ## The two paths -/

/-- The bounce buffer is large enough for the segments. -/
theorem SplitTransfer.total_le (split : SplitTransfer req temp) :
    total req.ranges ≤ tempBufferSize := by
  rw [split.total_ranges]
  exact split.dataLen_le

/-- The part of the bounce buffer that is used is apart from the segments. -/
theorem SplitTransfer.apart (split : SplitTransfer req temp) :
    ∀ r ∈ req.ranges, r.Apart ⟨temp, total req.ranges⟩ := by
  intro r member
  obtain ⟨s, within, rfl⟩ := List.mem_map.1 member
  have clear := split.clear s within
  have bound := split.total_le
  simp only [Range.Apart] at clear ⊢
  omega

theorem SplitTransfer.pairwise (split : SplitTransfer req temp) :
    req.ranges.Pairwise Range.Apart :=
  List.pairwise_map.2 split.disjoint

/-- A run of segments does not start at the bounce buffer. -/
theorem SplitTransfer.run_ne_temp (split : SplitTransfer req temp) {buf : ℕ}
    (run : OneRun req.segments buf) : buf ≠ temp := by
  obtain ⟨s, segs, shape⟩ := List.exists_cons_of_ne_nil split.segments_ne_nil
  have member : s ∈ req.segments := by simp [shape]
  have clear := split.clear s member
  have nonempty := split.nonempty s member
  rw [shape] at run
  have start := run.2.1
  have len : s.range.len = s.len := rfl
  simp only [Range.Apart, tempBufferSize] at clear
  omega

/-- The buffer `FtlWrite` is handed, after the segments were copied in where that is done. -/
theorem SplitTransfer.write_moves (split : SplitTransfer req temp) (mem : Memory) :
    let buf := (reqCheckBufferAlign req.segments 0 0).getD temp
    let mem' := if buf = temp then copyIn mem req.segments buf else mem
    read mem' ⟨buf, req.dataLen⟩ = readAll mem req.ranges ∧
      ∀ a, ¬ (Range.mk temp tempBufferSize).Has a → mem' a = mem a := by
  rw [← split.total_ranges]
  cases chosen : reqCheckBufferAlign req.segments 0 0 with
  | some buf =>
    have run := oneRun_of_reqCheckBufferAlign split.segments_ne_nil chosen
    simp only [Option.getD_some, if_neg (split.run_ne_temp run)]
    exact ⟨(readAll_of_adjacent mem _ buf run.adjacent).symm, fun _ _ => trivial⟩
  | none =>
    simp only [Option.getD_none, if_true, copyIn_eq_gather]
    refine ⟨read_gather mem req.ranges temp split.apart, fun a outside => ?_⟩
    apply gather_outside
    have bound := split.total_le
    simp only [Range.Has, Request.ranges] at outside bound ⊢
    omega

/-- The segments after `FtlRead` has filled the buffer, and it was copied out where that is done. -/
theorem SplitTransfer.read_moves (split : SplitTransfer req temp) (mem : Memory)
    (data : ℕ → UInt8) :
    let buf := (reqCheckBufferAlign req.segments 0 0).getD temp
    let filled := fill mem buf req.dataLen data
    let mem' := if buf = temp then copyOut filled req.segments buf else filled
    readAll mem' req.ranges = (List.range req.dataLen).map data ∧
      ∀ a, (∀ r ∈ req.ranges, ¬ r.Has a) → ¬ (Range.mk temp tempBufferSize).Has a →
        mem' a = mem a := by
  rw [← split.total_ranges]
  cases chosen : reqCheckBufferAlign req.segments 0 0 with
  | some buf =>
    have run := oneRun_of_reqCheckBufferAlign split.segments_ne_nil chosen
    simp only [Option.getD_some, if_neg (split.run_ne_temp run)]
    constructor
    · rw [readAll_of_adjacent _ req.ranges buf run.adjacent, read_fill]
    · intro a outside _
      apply fill_outside
      intro has
      obtain ⟨r, member, within⟩ := has_of_adjacent _ buf a run.adjacent has
      exact outside r member within
  | none =>
    simp only [Option.getD_none, if_true, copyOut_eq_scatter]
    constructor
    · rw [← read_fill mem temp]
      exact readAll_scatter _ req.ranges temp split.pairwise split.apart
    · intro a outside clear
      refine (scatter_outside _ req.ranges temp a outside).trans ?_
      apply fill_outside
      have bound := split.total_le
      simp only [Range.Has] at clear ⊢
      omega

/-! ## The call of the FTL -/

variable {dev : NandBlkDev} {mem : Memory} {ans : FtlAnswer} {start : UInt32} {buf : ℕ}

theorem nandDevTransfer_read_mem
    (ok : (nandDevTransfer dev start (UInt32.ofNat (req.dataLen / 512)) buf .read mem ans).status
      = .ok) :
    (nandDevTransfer dev start (UInt32.ofNat (req.dataLen / 512)) buf .read mem ans).mem =
      fill mem buf req.dataLen ans.data := by
  unfold nandDevTransfer at ok ⊢
  split at ok
  · cases ok
  · rename_i allowed
    simp only [if_neg allowed, req.bytes_passed]

theorem nandDevTransfer_write :
    let out := nandDevTransfer dev start (UInt32.ofNat (req.dataLen / 512)) buf .write mem ans
    out.mem = mem ∧ (out.status = .ok → out.calls ≠ []) ∧
      ∀ call ∈ out.calls, ∃ start nsect,
        call = .write start nsect (read mem ⟨buf, req.dataLen⟩) := by
  unfold nandDevTransfer
  split
  · simp
  · simp only [req.bytes_passed]
    refine ⟨trivial, fun _ => by simp, ?_⟩
    intro call member
    exact ⟨_, _, List.mem_singleton.1 member⟩

/-- WRITE, over either buffer. -/
theorem SplitTransfer.write_transfers (split : SplitTransfer req temp) (write : req.op = .write) :
    let out := doBlktransAllRequest dev req temp mem ans
    (∀ call ∈ out.calls, ∃ start nsect, call = .write start nsect (readAll mem req.ranges)) ∧
      (out.status = .ok → out.calls ≠ []) ∧
      ∀ a, ¬ (Range.mk temp tempBufferSize).Has a → out.mem a = mem a := by
  unfold doBlktransAllRequest
  split
  · simp
  · simp only [write]
    obtain ⟨moved, untouched⟩ := split.write_moves mem
    obtain ⟨same, called, data⟩ := nandDevTransfer_write
    rw [same]
    refine ⟨?_, called, untouched⟩
    intro call member
    obtain ⟨start, nsect, shape⟩ := data call member
    exact ⟨start, nsect, by rw [shape, moved]⟩

/-- READ, over either buffer. -/
theorem SplitTransfer.read_transfers (split : SplitTransfer req temp) (isRead : req.op = .read)
    (ok : (doBlktransAllRequest dev req temp mem ans).status = .ok) :
    let out := doBlktransAllRequest dev req temp mem ans
    readAll out.mem req.ranges = (List.range req.dataLen).map ans.data ∧
      ∀ a, (∀ r ∈ req.ranges, ¬ r.Has a) → ¬ (Range.mk temp tempBufferSize).Has a →
        out.mem a = mem a := by
  unfold doBlktransAllRequest at ok ⊢
  split at ok
  · cases ok
  · rename_i range
    simp only [isRead, if_neg range] at ok ⊢
    have moves := split.read_moves mem ans.data
    simp only at moves
    split_ifs at ok moves ⊢
    all_goals
      rw [← nandDevTransfer_read_mem ok] at moves
      exact moves

/-- Both paths move the bytes of the segments, in order, and touch nothing else but the bounce
buffer; the caller's memory is used directly only where it is one run of low memory, and no copy
passes the end of the bounce buffer. -/
theorem transfer_moves_segments (dev : NandBlkDev) (req : Request) (temp : ℕ) (mem : Memory)
    (ans : FtlAnswer) (split : SplitTransfer req temp) :
    let out := doBlktransAllRequest dev req temp mem ans
    (req.op = .write →
      (∀ call ∈ out.calls, ∃ start nsect, call = .write start nsect (readAll mem req.ranges)) ∧
      (out.status = .ok → out.calls ≠ []) ∧
      ∀ a, ¬ (Range.mk temp tempBufferSize).Has a → out.mem a = mem a) ∧
    (req.op = .read → out.status = .ok →
      readAll out.mem req.ranges = (List.range req.dataLen).map ans.data ∧
      ∀ a, (∀ r ∈ req.ranges, ¬ r.Has a) → ¬ (Range.mk temp tempBufferSize).Has a →
        out.mem a = mem a) ∧
    (∀ buf, reqCheckBufferAlign req.segments 0 0 = some buf → OneRun req.segments buf) ∧
    ∀ piece ∈ pieces req.ranges temp,
      temp ≤ piece.1 ∧ piece.1 + piece.2.len ≤ temp + tempBufferSize := by
  refine ⟨split.write_transfers, split.read_transfers,
    fun buf => oneRun_of_reqCheckBufferAlign split.segments_ne_nil, ?_⟩
  intro piece member
  obtain ⟨above, below⟩ := pieces_inside req.ranges temp piece member
  have bound := split.total_le
  omega

/-- A sector of low memory and one of high memory, read in one request. -/
def twoSegmentRead : Request where
  op := .read
  pos := 8
  bios := [⟨1024, [⟨1, false, 0, 512⟩, ⟨9, true, 100, 512⟩]⟩]
  bios_ne_nil := by simp
  whole := by simp
  filled := by simp
  dataLen_lt := by decide
  end_lt := by decide

theorem splitTransfer_twoSegmentRead : SplitTransfer twoSegmentRead 0x1000 where
  transfer := Or.inl rfl
  small := by decide
  nonempty := by decide
  onePage := by decide
  disjoint := by simp [twoSegmentRead, Request.segments, Segment.range, Range.Apart, pageAddress]
  clear := by
    simp [twoSegmentRead, Request.segments, Segment.range, Range.Apart, pageAddress, tempBufferSize]

theorem transfer_moves_segments_bounced :
    reqCheckBufferAlign twoSegmentRead.segments 0 0 = none ∧
      let dev : NandBlkDev := ⟨4096, 0, false, false, false⟩
      let out := doBlktransAllRequest dev twoSegmentRead 0x1000 (fun _ => 0) ⟨0, fun i => .ofNat i⟩
      out.status = .ok ∧
        readAll out.mem twoSegmentRead.ranges = (List.range 1024).map fun i => .ofNat i :=
  ⟨by decide, by decide, ((transfer_moves_segments ⟨4096, 0, false, false, false⟩ twoSegmentRead
    0x1000 (fun _ => 0) ⟨0, fun i => .ofNat i⟩ splitTransfer_twoSegmentRead).2.1 rfl
    (by decide)).1⟩

end RkNand.Blk
