import RkNand.Lib.Arm

/-!
# Functions of the FTL blob (`rk_ftlv5_arm32.S`)

The listings of the FTL core as the compiler printed them: version order, block addresses, bad-block
map, the queue of free system blocks and the lists of superblocks.  Directives are left out, a label
`.Ln` is `label n`, and `ldr rd, .Ln` is `lit` with the word the pool holds there.  Where the linker
puts the data (`.LANCHOR2`) and the message texts is a parameter; a variable is its distance from
`.LANCHOR2` (`Var`).
-/

namespace RkNand.Blob

open Arm Arm.Reg

/-- The functions the listings name. -/
inductive Symbol
  | ftlCmpDataVer | v2pBlock | p2vPlane | p2vBlockInPlane
  | ftlBbmMapBadBlock | ftlBbmIsBadBlock
  | ftlFreeSysBlkQueueInit | ftlFreeSysBlkQueueEmpty | ftlFreeSysBlkQueueFull
  | ftlFreeSysBlkQueueIn | ftlFreeSysBlkQueueOut
  | insertFreeList | insertFreeListCounted | listRemoveNode | listPopIndexNode
  | aeabiUidiv | aeabiUidivmod | ftlMemset | printk | flashEraseBlocks
  deriving DecidableEq, Repr

/-- What is not in the listings: the place of the data, of the message texts and of the code, and
the functions defined elsewhere. -/
structure Link where
  /-- `.LANCHOR2` -/
  anchor : BitVec 32
  /-- `.LC33`, `.LC37`, `.LC38` -/
  text : ℕ → BitVec 32
  loc : List (Instr Symbol) → List (Instr Symbol) → BitVec 32
  host : Symbol → State → Option State

/-! ## Variables

The variables of the blob by their distance from `.LANCHOR2`, as its `.bss` section has them. -/

namespace Var

/-- `gFlashSlcMode` -/
def gFlashSlcMode : BitVec 32 := -2740#32

/-- `gFlashCurMode` -/
def gFlashCurMode : BitVec 32 := -1872#32

/-- `c_ftl_nand_planes_per_die` -/
def planesPerDie : BitVec 32 := -1708#32

/-- `c_ftl_nand_blks_per_die` -/
def blksPerDie : BitVec 32 := -1668#32

/-- `g_totle_sys_slc_erase_count` -/
def totalEraseCount : BitVec 32 := -1572#32

/-- `req_erase` -/
def reqErase : BitVec 32 := -1488#32

/-- `p_erase_count_table` -/
def eraseCountTable : BitVec 32 := -1412#32

/-- `p_data_block_list_table` -/
def dataBlockListTable : BitVec 32 := -1356#32

/-- The number of bad blocks in `gBbtInfo`. -/
def bbtCount : BitVec 32 := -1342#32

/-- The bitmaps in `gBbtInfo`, a pointer for each die. -/
def bbtMaps : BitVec 32 := -1320#32

/-- `g_flash_read_only_en` -/
def readOnlyEn : BitVec 32 := -1280#32

/-- `gSysFreeQueue`: its type, the two indices, the number of entries and the entries. -/
def queueType : BitVec 32 := -1240#32
def queueFront : BitVec 32 := -1238#32
def queueTail : BitVec 32 := -1236#32
def queueCount : BitVec 32 := -1234#32
def queueCells : BitVec 32 := -1232#32

/-- `p_free_data_block_list_head` -/
def freeListHead : BitVec 32 := 876#32

/-- `g_num_free_superblocks` -/
def numFreeSuperblocks : BitVec 32 := 880#32

end Var

namespace Link

variable (k : Link)

/-! ## Versions and addresses -/

/-- `ftl_cmp_data_ver` -/
def ftlCmpDataVer : List (Instr Symbol) :=
  [ .cmp r0 r1,
    .when .ls (.b 1750),
    .sub r0 r0 r1,
    .cmp r0 (.imm (-2147483648)),
    .when .hi (.mov r0 0),
    .when .ls (.mov r0 1),
    .bx lr,
    .label 1750,
    .sub r0 r1 r0,
    .cmp r0 (.imm (-2147483648)),
    .when .ls (.mov r0 0),
    .when .hi (.mov r0 1),
    .bx lr ]

/-- `V2P_block` -/
def v2pBlock : List (Instr Symbol) :=
  [ .push [r4, r5, r6, r7, r8, lr],
    .mov r5 r1,
    .lit r4 k.anchor,
    .mov r7 r0,
    .sub r3 r4 1696,
    .sub r4 r4 1664,
    .ldrh r6 (.off r3 (-12)),
    .mov r1 r6,
    .bl .aeabiUidiv,
    .ldrh r4 (.off r4 (-4)),
    .smulbb r5 r6 r5,
    .mov r1 r6,
    .smulbb r4 r4 r0,
    .mov r0 r7,
    .bl .aeabiUidivmod,
    .add r0 r5 r1,
    .add r0 r4 r0,
    .uxth r0 r0,
    .popPc [r4, r5, r6, r7, r8] ]

/-- `P2V_plane` -/
def p2vPlane : List (Instr Symbol) :=
  [ .lit r3 k.anchor,
    .push [r4, r5, r6, lr],
    .mov r6 r0,
    .sub r2 r3 1696,
    .sub r3 r3 1664,
    .ldrh r5 (.off r2 (-12)),
    .ldrh r1 (.off r3 (-4)),
    .bl .aeabiUidiv,
    .mov r1 r5,
    .smulbb r4 r0 r5,
    .mov r0 r6,
    .bl .aeabiUidivmod,
    .add r1 r4 r1,
    .uxth r0 r1,
    .popPc [r4, r5, r6] ]

/-- `P2V_block_in_plane` -/
def p2vBlockInPlane : List (Instr Symbol) :=
  [ .push [r4, lr],
    .lit r4 k.anchor,
    .sub r3 r4 1664,
    .sub r4 r4 1696,
    .ldrh r1 (.off r3 (-4)),
    .bl .aeabiUidivmod,
    .uxth r0 r1,
    .ldrh r1 (.off r4 (-12)),
    .bl .aeabiUidiv,
    .uxth r0 r0,
    .popPc [r4] ]

/-! ## The bad-block map -/

/-- `FtlBbmMapBadBlock` -/
def ftlBbmMapBadBlock : List (Instr Symbol) :=
  [ .push [r0, r1, r2, r4, r5, r6, r7, lr],
    .mov r5 r0,
    .lit r4 k.anchor,
    .sub r3 r4 1664,
    .ldrh r7 (.off r3 (-4)),
    .mov r1 r7,
    .bl .aeabiUidiv,
    .uxth r6 r0,
    .mov r1 r7,
    .mov r0 r5,
    .bl .aeabiUidivmod,
    .add r2 r4 (.lsl r6 2),
    .uxth r3 r1,
    .ldr r2 (.off r2 (-1320)),
    .lsr r1 r3 5,
    .and ip r3 31,
    .mov lr 1,
    .ldr r0 (.idx r2 r1 2),
    .orr r0 r0 (.lslBy lr ip),
    .str r0 (.idx r2 r1 2),
    .mov r2 r6,
    .str r0 (.off sp 0),
    .mov r1 r5,
    .lit r0 (k.text 33),
    .bl .printk,
    .sub r3 r4 1344,
    .mov r0 0,
    .ldrh r2 (.off r3 2),
    .add r2 r2 1,
    .strh r2 (.off r3 2),
    .add sp sp 12,
    .popPc [r4, r5, r6, r7] ]

/-- `FtlBbmIsBadBlock` -/
def ftlBbmIsBadBlock : List (Instr Symbol) :=
  [ .push [r4, r5, r6, r7, r8, lr],
    .mov r7 r0,
    .lit r5 k.anchor,
    .sub r3 r5 1664,
    .ldrh r6 (.off r3 (-4)),
    .mov r1 r6,
    .bl .aeabiUidivmod,
    .mov r0 r7,
    .uxth r4 r1,
    .mov r1 r6,
    .bl .aeabiUidiv,
    .uxth r0 r0,
    .lsr r2 r4 5,
    .add r5 r5 (.lsl r0 2),
    .and r4 r4 31,
    .ldr r3 (.off r5 (-1320)),
    .ldr r0 (.idx r3 r2 2),
    .lsr r0 r0 r4,
    .and r0 r0 1,
    .popPc [r4, r5, r6, r7, r8] ]

/-! ## The queue of free system blocks -/

/-- `FtlFreeSysBlkQueueInit` -/
def ftlFreeSysBlkQueueInit : List (Instr Symbol) :=
  [ .lit r3 (k.anchor - 1232),
    .mov r2 2048,
    .push [r4, lr],
    .mov r4 0,
    .mov r1 r4,
    .strh r0 (.off r3 (-8)),
    .mov r0 r3,
    .strh r4 (.off r3 (-6)),
    .strh r4 (.off r3 (-4)),
    .strh r4 (.off r3 (-2)),
    .bl .ftlMemset,
    .mov r0 r4,
    .popPc [r4] ]

/-- `FtlFreeSysBlkQueueEmpty` -/
def ftlFreeSysBlkQueueEmpty : List (Instr Symbol) :=
  [ .lit r3 (k.anchor - 1240),
    .ldrh r0 (.off r3 6),
    .clz r0 r0,
    .lsr r0 r0 5,
    .bx lr ]

/-- `FtlFreeSysBlkQueueFull` -/
def ftlFreeSysBlkQueueFull : List (Instr Symbol) :=
  [ .lit r3 (k.anchor - 1240),
    .ldrh r0 (.off r3 6),
    .sub r0 r0 1024,
    .clz r0 r0,
    .lsr r0 r0 5,
    .bx lr ]

/-- `FtlFreeSysBlkQueueIn` -/
def ftlFreeSysBlkQueueIn : List (Instr Symbol) :=
  [ .sub r3 r0 1,
    .mov r2 65533,
    .uxth r3 r3,
    .cmp r3 r2,
    .when .hi (.bx lr),
    .push [r4, r5, r6, r7, r8, lr],
    .lit r5 k.anchor,
    .sub r3 r5 1232,
    .ldrh r2 (.off r3 (-2)),
    .mov r4 r3,
    .cmp r2 1024,
    .when .eq (.popPc [r4, r5, r6, r7, r8]),
    .cmp r1 0,
    .mov r6 r0,
    .when .eq (.b 1812),
    .ldr r3 (.off r5 (-1280)),
    .cmp r3 0,
    .when .ne (.b 1812),
    .bl .p2vBlockInPlane,
    .mov r7 r0,
    .ldr r0 (.off r5 (-1488)),
    .lsl r3 r6 10,
    .mov r2 1,
    .mov r1 r2,
    .str r3 (.off r0 4),
    .bl .flashEraseBlocks,
    .ldr r2 (.off r5 (-1412)),
    .lsl r0 r7 1,
    .ldrh r3 (.idx r2 r0 0),
    .add r3 r3 1,
    .strh r3 (.idx r2 r0 0),
    .ldr r3 (.off r5 (-1572)),
    .add r3 r3 1,
    .str r3 (.off r5 (-1572)),
    .label 1812,
    .ldrh r2 (.off r4 (-2)),
    .sub r3 r4 8,
    .add r2 r2 1,
    .strh r2 (.off r4 (-2)),
    .ldrh r2 (.off r4 (-4)),
    .add r1 r3 (.lsl r2 1),
    .add r2 r2 1,
    .ubfx r2 r2 0 10,
    .strh r6 (.off r1 8),
    .strh r2 (.off r4 (-4)),
    .popPc [r4, r5, r6, r7, r8] ]

/-- `FtlFreeSysBlkQueueOut` -/
def ftlFreeSysBlkQueueOut : List (Instr Symbol) :=
  [ .push [r4, r5, r6, r7, r8, r9, r10, lr],
    .lit r4 k.anchor,
    .sub r6 r4 1232,
    .sub r7 r6 8,
    .label 1888,
    .ldrh r1 (.off r6 (-2)),
    .sub r2 r6 8,
    .cmp r1 0,
    .when .eq (.b 1889),
    .ldrh r3 (.off r6 (-6)),
    .sub r1 r1 1,
    .ldr r9 (.off r4 (-1280)),
    .strh r1 (.off r6 (-2)),
    .add r0 r2 (.lsl r3 1),
    .cmp r9 0,
    .add r3 r3 1,
    .ubfx r3 r3 0 10,
    .ldrh r5 (.off r0 8),
    .strh r3 (.off r6 (-6)),
    .when .ne (.b 1890),
    .mov r0 r5,
    .bl .p2vBlockInPlane,
    .mov r8 r0,
    .ldr r0 (.off r4 (-1488)),
    .lsl r3 r5 10,
    .str r3 (.off r0 4),
    .ldrb r3 (.off r4 (-2740)),
    .cmp r3 0,
    .when .eq (.b 1891),
    .mov r2 1,
    .mov r1 r9,
    .bl .flashEraseBlocks,
    .label 1891,
    .mov r2 1,
    .ldr r0 (.off r4 (-1488)),
    .mov r1 r2,
    .bl .flashEraseBlocks,
    .ldr r2 (.off r4 (-1412)),
    .lsl r0 r8 1,
    .ldrh r3 (.idx r2 r0 0),
    .add r3 r3 1,
    .strh r3 (.idx r2 r0 0),
    .ldr r3 (.off r4 (-1572)),
    .add r3 r3 1,
    .str r3 (.off r4 (-1572)),
    .label 1890,
    .sub r3 r5 1,
    .mov r2 65533,
    .uxth r3 r3,
    .cmp r3 r2,
    .when .ls (.b 1893),
    .ldrh r2 (.off r7 6),
    .mov r1 r5,
    .lit r0 (k.text 38),
    .bl .printk,
    .b 1888,
    .label 1889,
    .lit r0 (k.text 37),
    .bl .printk,
    .label 1892,
    .b 1892,
    .label 1893,
    .mov r0 r5,
    .popPc [r4, r5, r6, r7, r8, r9, r10] ]

/-! ## The list of free superblocks -/

/-- `insert_free_list` -/
def insertFreeList : List (Instr Symbol) :=
  [ .push [r4, r5, r6, r7, r8, r9, r10, lr],
    .mov r4 65535,
    .cmp r0 r4,
    .when .eq (.b 1931),
    .lit r2 k.anchor,
    .mov r1 6,
    .mul r5 r1 r0,
    .mvn r3 0,
    .ldr r6 (.off r2 (-1356)),
    .mov ip r2,
    .add lr r6 r5,
    .strh r3 (.off lr 2),
    .strh r3 (.idx r6 r5 0),
    .ldr r3 (.off r2 876),
    .cmp r3 0,
    .when .eq (.str lr (.off r2 876)),
    .when .eq (.b 1931),
    .ldr r8 (.off r2 (-1412)),
    .lsl r2 r0 1,
    .ldr r7 (.off ip (-1356)),
    .ldrh r9 (.idx r8 r2 0),
    .sub r2 r3 r7,
    .asr r10 r2 1,
    .lit r2 (-1431655765),
    .mul r2 r2 r10,
    .mov r10 r1,
    .uxth r2 r2,
    .label 1935,
    .lsl r1 r2 1,
    .ldrh r1 (.idx r8 r1 0),
    .cmp r1 r9,
    .when .cs (.b 1933),
    .ldrh r1 (.off r3 0),
    .cmp r1 r4,
    .when .ne (.b 1934),
    .strh r2 (.off lr 2),
    .strh r0 (.off r3 0),
    .label 1931,
    .mov r0 0,
    .popPc [r4, r5, r6, r7, r8, r9, r10],
    .label 1934,
    .mla r3 r10 r1 r7,
    .mov r2 r1,
    .b 1935,
    .label 1933,
    .ldrh r1 (.off r3 2),
    .strh r1 (.off lr 2),
    .strh r2 (.idx r6 r5 0),
    .ldr r2 (.off ip 876),
    .cmp r3 r2,
    .when .ne (.ldrh lr (.off r3 2)),
    .when .ne (.mov r2 6),
    .when .ne (.ldr r1 (.off ip (-1356))),
    .when .eq (.strh r0 (.off r3 2)),
    .when .eq (.str lr (.off ip 876)),
    .when .ne (.mul r2 r2 lr),
    .when .ne (.strh r0 (.idx r1 r2 0)),
    .when .ne (.strh r0 (.off r3 2)),
    .b 1931 ]

/-- `INSERT_FREE_LIST` -/
def insertFreeListCounted : List (Instr Symbol) :=
  [ .push [r4, lr],
    .bl .insertFreeList,
    .lit r2 (k.anchor + 880),
    .ldrh r3 (.off r2 0),
    .add r3 r3 1,
    .strh r3 (.off r2 0),
    .popPc [r4] ]

/-- `List_remove_node` -/
def listRemoveNode : List (Instr Symbol) :=
  [ .push [r4, r5, lr],
    .mov ip 6,
    .lit r4 k.anchor,
    .mul r1 ip r1,
    .mov r5 65535,
    .ldr r3 (.off r0 0),
    .ldr r2 (.off r4 (-1356)),
    .add lr r2 r1,
    .cmp lr r3,
    .ldrh r3 (.idx r2 r1 0),
    .when .ne (.b 1945),
    .cmp r3 r5,
    .when .ne (.mla r3 ip r3 r2),
    .when .eq (.mov r3 0),
    .when .eq (.str r3 (.off r0 0)),
    .when .ne (.str r3 (.off r0 0)),
    .when .ne (.mvn r0 0),
    .when .ne (.strh r0 (.off r3 2)),
    .label 1947,
    .mvn r3 0,
    .mov r0 0,
    .strh r3 (.idx r2 r1 0),
    .strh r3 (.off lr 2),
    .popPc [r4, r5],
    .label 1945,
    .cmp r3 r5,
    .ldrh r0 (.off lr 2),
    .when .ne (.b 1948),
    .cmp r0 r3,
    .when .ne (.mul r3 ip r0),
    .when .ne (.mvn r0 0),
    .when .ne (.strh r0 (.idx r2 r3 0)),
    .b 1947,
    .label 1948,
    .mla r3 ip r3 r2,
    .strh r0 (.off r3 2),
    .ldrh r3 (.off lr 2),
    .ldrh r5 (.idx r2 r1 0),
    .ldr r0 (.off r4 (-1356)),
    .mul r3 ip r3,
    .strh r5 (.idx r0 r3 0),
    .b 1947 ]

/-- `List_pop_index_node` -/
def listPopIndexNode : List (Instr Symbol) :=
  [ .ldr r3 (.off r0 0),
    .cmp r3 0,
    .when .eq (.b 1958),
    .lit r2 k.anchor,
    .push [r4, lr],
    .mov lr 65535,
    .mov r4 6,
    .ldr r2 (.off r2 (-1356)),
    .label 1954,
    .cmp r1 0,
    .when .ne (.b 1955),
    .label 1957,
    .lit r4 (-1431655765),
    .sub r3 r3 r2,
    .asr r3 r3 1,
    .mul r4 r4 r3,
    .uxth r1 r4,
    .bl .listRemoveNode,
    .uxth r0 r4,
    .popPc [r4],
    .label 1955,
    .ldrh ip (.off r3 0),
    .cmp ip lr,
    .when .eq (.b 1957),
    .sub r1 r1 1,
    .mla r3 r4 ip r2,
    .uxth r1 r1,
    .b 1954,
    .label 1958,
    .mov r0 65535,
    .bx lr ]

/-- The linked blob. -/
def image : Image Symbol where
  loc := k.loc
  fn
    | .ftlCmpDataVer => .listing ftlCmpDataVer
    | .v2pBlock => .listing k.v2pBlock
    | .p2vPlane => .listing k.p2vPlane
    | .p2vBlockInPlane => .listing k.p2vBlockInPlane
    | .ftlBbmMapBadBlock => .listing k.ftlBbmMapBadBlock
    | .ftlBbmIsBadBlock => .listing k.ftlBbmIsBadBlock
    | .ftlFreeSysBlkQueueInit => .listing k.ftlFreeSysBlkQueueInit
    | .ftlFreeSysBlkQueueEmpty => .listing k.ftlFreeSysBlkQueueEmpty
    | .ftlFreeSysBlkQueueFull => .listing k.ftlFreeSysBlkQueueFull
    | .ftlFreeSysBlkQueueIn => .listing k.ftlFreeSysBlkQueueIn
    | .ftlFreeSysBlkQueueOut => .listing k.ftlFreeSysBlkQueueOut
    | .insertFreeList => .listing k.insertFreeList
    | .insertFreeListCounted => .listing k.insertFreeListCounted
    | .listRemoveNode => .listing k.listRemoveNode
    | .listPopIndexNode => .listing k.listPopIndexNode
    | f => .host (k.host f)

/-! ## The variables as the listings address them -/

section Addresses

variable {k : Link}

@[simp] theorem planesPerDie_addr :
    k.anchor - 1696#32 + 4294967284#32 = k.anchor + Var.planesPerDie := by
  unfold Var.planesPerDie
  bv_omega

@[simp] theorem blksPerDie_addr :
    k.anchor - 1664#32 + 4294967292#32 = k.anchor + Var.blksPerDie := by
  unfold Var.blksPerDie
  bv_omega

@[simp] theorem bbtCount_addr : k.anchor - 1344#32 + 2#32 = k.anchor + Var.bbtCount := by
  unfold Var.bbtCount
  bv_omega

@[simp] theorem bbtMaps_addr (a : BitVec 32) : a + 4294965976#32 = a + Var.bbtMaps := rfl

@[simp] theorem gFlashSlcMode_addr :
    k.anchor + 4294964556#32 = k.anchor + Var.gFlashSlcMode := rfl

@[simp] theorem totalEraseCount_addr :
    k.anchor + 4294965724#32 = k.anchor + Var.totalEraseCount := rfl

@[simp] theorem reqErase_addr : k.anchor + 4294965808#32 = k.anchor + Var.reqErase := rfl

@[simp] theorem eraseCountTable_addr :
    k.anchor + 4294965884#32 = k.anchor + Var.eraseCountTable := rfl

@[simp] theorem dataBlockListTable_addr :
    k.anchor + 4294965940#32 = k.anchor + Var.dataBlockListTable := rfl

@[simp] theorem readOnlyEn_addr : k.anchor + 4294966016#32 = k.anchor + Var.readOnlyEn := rfl

@[simp] theorem queueType_addr :
    k.anchor - 1232#32 + 4294967288#32 = k.anchor + Var.queueType := by
  unfold Var.queueType
  bv_omega

@[simp] theorem queueFront_addr :
    k.anchor - 1232#32 + 4294967290#32 = k.anchor + Var.queueFront := by
  unfold Var.queueFront
  bv_omega

@[simp] theorem queueTail_addr :
    k.anchor - 1232#32 + 4294967292#32 = k.anchor + Var.queueTail := by
  unfold Var.queueTail
  bv_omega

@[simp] theorem queueCount_addr :
    k.anchor - 1232#32 + 4294967294#32 = k.anchor + Var.queueCount := by
  unfold Var.queueCount
  bv_omega

@[simp] theorem queueCount_addr' : k.anchor - 1240#32 + 6#32 = k.anchor + Var.queueCount := by
  unfold Var.queueCount
  bv_omega

theorem queueCells_addr : k.anchor - 1232#32 = k.anchor + Var.queueCells := by
  unfold Var.queueCells
  bv_omega

@[simp] theorem freeListHead_addr : k.anchor + 876#32 = k.anchor + Var.freeListHead := rfl

@[simp] theorem numFreeSuperblocks_addr :
    k.anchor + 880#32 = k.anchor + Var.numFreeSuperblocks := rfl

end Addresses

end Link

end RkNand.Blob
