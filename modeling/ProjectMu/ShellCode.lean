import ProjectMu.Arm64Program

/-!
# The shell code for the transfer to the kernel

The bytes of `TransferToKernelShellCode`, block by block as the errata flags select them,
with the instructions they encode.
-/

namespace ProjectMu

open Arm64

def actlrEl1Code : List (BitVec 8) :=
  [ 0xEB, 0x03, 0x00, 0xAA, 0x68, 0x0D, 0x41, 0xF8, 0x1F, 0x01, 0x0B, 0xEB, 0x20, 0x04, 0x00, 0x54,
    0x06, 0x05, 0x82, 0x52, 0x06, 0xA7, 0xBA, 0x72, 0x07, 0xFB, 0x9D, 0x52, 0xE7, 0x5C, 0xA5, 0x72,
    0xEA, 0x03, 0x84, 0x52, 0x6A, 0xA0, 0xBA, 0x72, 0x09, 0x01, 0x80, 0x52, 0x09, 0x50, 0xBA, 0x72,
    0x10, 0x00, 0x00, 0x14, 0x49, 0x00, 0x00, 0xB9, 0x42, 0x10, 0x00, 0x91, 0x5F, 0x00, 0x04, 0xEB,
    0x22, 0x01, 0x00, 0x54, 0x43, 0x00, 0x40, 0xB9, 0x7F, 0x00, 0x06, 0x6B, 0x40, 0xFF, 0xFF, 0x54,
    0x63, 0x00, 0x07, 0x0B, 0x7F, 0x04, 0x00, 0x71, 0x08, 0xFF, 0xFF, 0x54, 0x4A, 0x00, 0x00, 0xB9,
    0xF6, 0xFF, 0xFF, 0x17, 0x08, 0x01, 0x40, 0xF9, 0x1F, 0x01, 0x0B, 0xEB, 0x09, 0x00, 0x00, 0x14,
    0x02, 0x19, 0x40, 0xF9, 0x04, 0x41, 0x40, 0xB9, 0x84, 0x00, 0x02, 0x8B, 0x5F, 0x00, 0x04, 0xEB,
    0x23, 0xFE, 0xFF, 0x54, 0xF8, 0xFF, 0xFF, 0x17, 0x00, 0x00, 0x00, 0x14, 0x1F, 0x20, 0x03, 0xD5 ]

def amcntenset0El0Code : List (BitVec 8) :=
  [ 0xE8, 0x03, 0x00, 0xAA, 0x06, 0x0D, 0x41, 0xF8, 0xDF, 0x00, 0x08, 0xEB, 0x20, 0x03, 0x00, 0x54,
    0x05, 0x55, 0x9A, 0x52, 0x65, 0xA7, 0xBA, 0x72, 0x07, 0x01, 0x80, 0x52, 0x07, 0x50, 0xBA, 0x72,
    0x0C, 0x00, 0x00, 0x14, 0x42, 0x10, 0x00, 0x91, 0x5F, 0x00, 0x04, 0xEB, 0xC2, 0x00, 0x00, 0x54,
    0x43, 0x00, 0x40, 0xB9, 0x7F, 0x00, 0x05, 0x6B, 0x61, 0xFF, 0xFF, 0x54, 0x47, 0x00, 0x00, 0xB9,
    0xF9, 0xFF, 0xFF, 0x17, 0xC6, 0x00, 0x40, 0xF9, 0xDF, 0x00, 0x08, 0xEB, 0x09, 0x00, 0x00, 0x14,
    0xC2, 0x18, 0x40, 0xF9, 0xC4, 0x40, 0x40, 0xB9, 0x84, 0x00, 0x02, 0x8B, 0x5F, 0x00, 0x04, 0xEB,
    0x83, 0xFE, 0xFF, 0x54, 0xF8, 0xFF, 0xFF, 0x17, 0x00, 0x00, 0x00, 0x14, 0x1F, 0x20, 0x03, 0xD5 ]

def irmCode : List (BitVec 8) :=
  [ 0xEA, 0x03, 0x00, 0xAA, 0x49, 0x0D, 0x41, 0xF8, 0x3F, 0x01, 0x0A, 0xEB, 0xA0, 0x0C, 0x00, 0x54,
    0x03, 0x00, 0x80, 0xD2, 0x04, 0x00, 0x80, 0xD2, 0x48, 0x75, 0x99, 0x52, 0x08, 0xA3, 0xBA, 0x72,
    0x67, 0x00, 0x80, 0xD2, 0x27, 0x01, 0xA0, 0xF2, 0xC7, 0x02, 0xC0, 0xF2, 0x27, 0x01, 0xE0, 0xF2,
    0x04, 0x00, 0x00, 0x14, 0x29, 0x01, 0x40, 0xF9, 0x3F, 0x01, 0x0A, 0xEB, 0x13, 0x00, 0x00, 0x14,
    0x22, 0x19, 0x40, 0xF9, 0x26, 0x41, 0x40, 0xB9, 0xC6, 0x00, 0x02, 0x8B, 0x5F, 0x00, 0x06, 0xEB,
    0x22, 0xFF, 0xFF, 0x54, 0x45, 0x00, 0x40, 0xB9, 0xBF, 0x00, 0x08, 0x6B, 0x84, 0x10, 0x82, 0x9A,
    0x45, 0x00, 0x40, 0xF9, 0xBF, 0x00, 0x07, 0xEB, 0x63, 0x10, 0x82, 0x9A, 0x9F, 0x00, 0x00, 0xF1,
    0x64, 0x18, 0x40, 0xFA, 0x01, 0xFE, 0xFF, 0x54, 0x42, 0x10, 0x00, 0x91, 0x5F, 0x00, 0x06, 0xEB,
    0xA3, 0xFE, 0xFF, 0x54, 0xEC, 0xFF, 0xFF, 0x17, 0x9F, 0x00, 0x00, 0xF1, 0x64, 0x18, 0x40, 0xFA,
    0x80, 0x08, 0x00, 0x54, 0x62, 0xA0, 0x02, 0xD1, 0x42, 0x00, 0x04, 0xCB, 0x42, 0x6C, 0x02, 0x53,
    0x05, 0x80, 0xB2, 0x52, 0x42, 0x00, 0x05, 0x2A, 0x82, 0x00, 0x00, 0xB9, 0xA2, 0x7F, 0x8F, 0xD2,
    0xE2, 0x37, 0xB5, 0xF2, 0xA2, 0x7F, 0xC0, 0xF2, 0x02, 0x20, 0xF2, 0xF2, 0x62, 0x80, 0x15, 0xF8,
    0x42, 0x49, 0x80, 0xD2, 0x02, 0xC8, 0xB6, 0xF2, 0x42, 0x29, 0xDF, 0xF2, 0xE2, 0x4A, 0xF2, 0xF2,
    0x62, 0x00, 0x16, 0xF8, 0x42, 0x29, 0x80, 0xD2, 0x02, 0x48, 0xB6, 0xF2, 0xC2, 0x7E, 0xC0, 0xF2,
    0x42, 0x41, 0xF5, 0xF2, 0x62, 0x80, 0x16, 0xF8, 0x22, 0x15, 0x80, 0xD2, 0x02, 0xA7, 0xBA, 0xF2,
    0x22, 0xA5, 0xC1, 0xF2, 0x02, 0x4F, 0xF2, 0xF2, 0x62, 0x00, 0x17, 0xF8, 0x82, 0x02, 0x80, 0xD2,
    0x02, 0x50, 0xBA, 0xF2, 0xA2, 0x22, 0xC0, 0xF2, 0x02, 0x50, 0xEA, 0xF2, 0x62, 0x80, 0x17, 0xF8,
    0xE2, 0x53, 0x84, 0xD2, 0x22, 0x69, 0xBD, 0xF2, 0x02, 0x14, 0xC0, 0xF2, 0x02, 0x80, 0xEA, 0xF2,
    0x62, 0x00, 0x18, 0xF8, 0x02, 0xD1, 0x97, 0xD2, 0x02, 0x6E, 0xBA, 0xF2, 0x42, 0x59, 0xC0, 0xF2,
    0x02, 0x41, 0xF5, 0xF2, 0x62, 0x80, 0x18, 0xF8, 0x42, 0x75, 0x99, 0xD2, 0x02, 0xA3, 0xBA, 0xF2,
    0xE2, 0xF3, 0xC7, 0xF2, 0x62, 0xA0, 0xFA, 0xF2, 0x62, 0x00, 0x19, 0xF8, 0x82, 0xD2, 0x80, 0xD2,
    0x02, 0x20, 0xB2, 0xF2, 0xA2, 0xD6, 0xC0, 0xF2, 0x02, 0x20, 0xEA, 0xF2, 0x62, 0x80, 0x19, 0xF8,
    0xA2, 0xE2, 0x9F, 0xD2, 0xE2, 0xBF, 0xA6, 0xF2, 0x42, 0x00, 0xC0, 0xF2, 0x02, 0x80, 0xE2, 0xF2,
    0x62, 0x00, 0x1A, 0xF8, 0x42, 0x75, 0x99, 0xD2, 0x02, 0xA3, 0xBA, 0xF2, 0xA2, 0x7F, 0xCF, 0xF2,
    0x22, 0x18, 0xF5, 0xF2, 0x62, 0x80, 0x1A, 0xF8, 0x02, 0x78, 0x80, 0x52, 0xE2, 0xCB, 0xBA, 0x72,
    0x62, 0x00, 0x1B, 0xB8, 0x1F, 0x20, 0x03, 0xD5, 0x1F, 0x20, 0x03, 0xD5, 0x1F, 0x20, 0x03, 0xD5 ]

def irmX8Code : List (BitVec 8) :=
  [ 0xEA, 0x03, 0x00, 0xAA, 0x49, 0x0D, 0x41, 0xF8, 0x3F, 0x01, 0x0A, 0xEB, 0xA0, 0x0C, 0x00, 0x54,
    0x03, 0x00, 0x80, 0xD2, 0x04, 0x00, 0x80, 0xD2, 0x08, 0x75, 0x99, 0x52, 0x08, 0xA3, 0xBA, 0x72,
    0x67, 0x00, 0x80, 0xD2, 0x27, 0x01, 0xA0, 0xF2, 0xC7, 0x02, 0xC0, 0xF2, 0x27, 0x01, 0xE0, 0xF2,
    0x04, 0x00, 0x00, 0x14, 0x29, 0x01, 0x40, 0xF9, 0x3F, 0x01, 0x0A, 0xEB, 0x13, 0x00, 0x00, 0x14,
    0x22, 0x19, 0x40, 0xF9, 0x26, 0x41, 0x40, 0xB9, 0xC6, 0x00, 0x02, 0x8B, 0x5F, 0x00, 0x06, 0xEB,
    0x22, 0xFF, 0xFF, 0x54, 0x45, 0x00, 0x40, 0xB9, 0xBF, 0x00, 0x08, 0x6B, 0x84, 0x10, 0x82, 0x9A,
    0x45, 0x00, 0x40, 0xF9, 0xBF, 0x00, 0x07, 0xEB, 0x63, 0x10, 0x82, 0x9A, 0x9F, 0x00, 0x00, 0xF1,
    0x64, 0x18, 0x40, 0xFA, 0x01, 0xFE, 0xFF, 0x54, 0x42, 0x10, 0x00, 0x91, 0x5F, 0x00, 0x06, 0xEB,
    0xA3, 0xFE, 0xFF, 0x54, 0xEC, 0xFF, 0xFF, 0x17, 0x9F, 0x00, 0x00, 0xF1, 0x64, 0x18, 0x40, 0xFA,
    0x80, 0x08, 0x00, 0x54, 0x62, 0xA0, 0x02, 0xD1, 0x42, 0x00, 0x04, 0xCB, 0x42, 0x6C, 0x02, 0x53,
    0x05, 0x80, 0xB2, 0x52, 0x42, 0x00, 0x05, 0x2A, 0x82, 0x00, 0x00, 0xB9, 0xA2, 0x7F, 0x8F, 0xD2,
    0xE2, 0x37, 0xB5, 0xF2, 0xA2, 0x7F, 0xC0, 0xF2, 0x02, 0x20, 0xF2, 0xF2, 0x62, 0x80, 0x15, 0xF8,
    0x02, 0x49, 0x80, 0xD2, 0x02, 0xC8, 0xB6, 0xF2, 0x02, 0x21, 0xDF, 0xF2, 0xE2, 0x4A, 0xF2, 0xF2,
    0x62, 0x00, 0x16, 0xF8, 0x02, 0x21, 0x80, 0xD2, 0x02, 0x48, 0xB6, 0xF2, 0xC2, 0x7E, 0xC0, 0xF2,
    0x02, 0x41, 0xF5, 0xF2, 0x62, 0x80, 0x16, 0xF8, 0x22, 0x15, 0x80, 0xD2, 0x02, 0xA7, 0xBA, 0xF2,
    0x22, 0xA5, 0xC1, 0xF2, 0x02, 0x4F, 0xF2, 0xF2, 0x62, 0x00, 0x17, 0xF8, 0x82, 0x02, 0x80, 0xD2,
    0x02, 0x50, 0xBA, 0xF2, 0xA2, 0x22, 0xC0, 0xF2, 0x02, 0x50, 0xEA, 0xF2, 0x62, 0x80, 0x17, 0xF8,
    0xE2, 0x53, 0x84, 0xD2, 0x22, 0x69, 0xBD, 0xF2, 0x02, 0x14, 0xC0, 0xF2, 0x02, 0x80, 0xEA, 0xF2,
    0x62, 0x00, 0x18, 0xF8, 0x42, 0xD1, 0x97, 0xD2, 0x02, 0x6E, 0xBA, 0xF2, 0x02, 0x59, 0xC0, 0xF2,
    0x42, 0x41, 0xF5, 0xF2, 0x62, 0x80, 0x18, 0xF8, 0x02, 0x75, 0x99, 0xD2, 0x02, 0xA3, 0xBA, 0xF2,
    0xE2, 0xF3, 0xC7, 0xF2, 0x62, 0xA0, 0xFA, 0xF2, 0x62, 0x00, 0x19, 0xF8, 0x82, 0xD2, 0x80, 0xD2,
    0x02, 0x20, 0xB2, 0xF2, 0xA2, 0xD6, 0xC0, 0xF2, 0x02, 0x20, 0xEA, 0xF2, 0x62, 0x80, 0x19, 0xF8,
    0xA2, 0xE2, 0x9F, 0xD2, 0xE2, 0xBF, 0xA6, 0xF2, 0x42, 0x00, 0xC0, 0xF2, 0x02, 0x80, 0xE2, 0xF2,
    0x62, 0x00, 0x1A, 0xF8, 0x02, 0x75, 0x99, 0xD2, 0x02, 0xA3, 0xBA, 0xF2, 0xA2, 0x7F, 0xCF, 0xF2,
    0x22, 0x18, 0xF5, 0xF2, 0x62, 0x80, 0x1A, 0xF8, 0x02, 0x78, 0x80, 0x52, 0xE2, 0xCB, 0xBA, 0x72,
    0x62, 0x00, 0x1B, 0xB8, 0x1F, 0x20, 0x03, 0xD5, 0x1F, 0x20, 0x03, 0xD5, 0x1F, 0x20, 0x03, 0xD5 ]

def psciMemprotectCode : List (BitVec 8) :=
  [ 0xEC, 0x03, 0x00, 0xAA, 0x88, 0x0D, 0x41, 0xF8, 0x1F, 0x01, 0x0C, 0xEB, 0x20, 0x06, 0x00, 0x54,
    0xA6, 0x5A, 0x80, 0xD2, 0x06, 0x00, 0xA3, 0xF2, 0x66, 0x00, 0xC0, 0xF2, 0x06, 0x50, 0xFA, 0xF2,
    0x67, 0x00, 0x80, 0xD2, 0x07, 0x50, 0xBA, 0xF2, 0x47, 0x00, 0xC0, 0xF2, 0x07, 0x50, 0xFA, 0xF2,
    0x2A, 0x00, 0x80, 0xD2, 0x0A, 0x50, 0xBA, 0xF2, 0x0A, 0x48, 0xC0, 0xF2, 0x0A, 0x00, 0xE3, 0xF2,
    0x0B, 0x78, 0x80, 0x52, 0xEB, 0xCB, 0xBA, 0x72, 0x49, 0x00, 0x80, 0xD2, 0x09, 0x50, 0xBA, 0xF2,
    0x29, 0x00, 0xC0, 0xF2, 0x09, 0x50, 0xFA, 0xF2, 0x17, 0x00, 0x00, 0x14, 0x43, 0x04, 0x40, 0xF9,
    0x7F, 0x00, 0x09, 0xEB, 0xE0, 0x01, 0x00, 0x54, 0x42, 0x10, 0x00, 0x91, 0x5F, 0x00, 0x05, 0xEB,
    0xC2, 0x01, 0x00, 0x54, 0x43, 0x00, 0x40, 0xF9, 0x7F, 0x00, 0x06, 0xEB, 0x00, 0xFF, 0xFF, 0x54,
    0x7F, 0x00, 0x07, 0xEB, 0x21, 0xFF, 0xFF, 0x54, 0x43, 0x04, 0x40, 0xF9, 0x63, 0xF8, 0x58, 0x92,
    0x7F, 0x00, 0x0A, 0xEB, 0xA1, 0xFE, 0xFF, 0x54, 0x4B, 0x40, 0x1E, 0xB8, 0xF3, 0xFF, 0xFF, 0x17,
    0x4B, 0x00, 0x1E, 0xB8, 0xF1, 0xFF, 0xFF, 0x17, 0x08, 0x01, 0x40, 0xF9, 0x1F, 0x01, 0x0C, 0xEB,
    0x08, 0x00, 0x00, 0x14, 0x02, 0x19, 0x40, 0xF9, 0x05, 0x41, 0x40, 0xB9, 0xA5, 0x00, 0x02, 0x8B,
    0x5F, 0x00, 0x05, 0xEB, 0x83, 0xFD, 0xFF, 0x54, 0xF8, 0xFF, 0xFF, 0x17, 0x00, 0x00, 0x00, 0x14 ]

/-- The errata of a platform that have a block in the shell code. -/
structure ErrataFlags where
  actlrEl1Unimplemented : Bool
  amcntenset0El0Unimplemented : Bool
  gicV3WithoutIrmFlagSupport : Bool
  psciMemprotectFailing : Bool

def transferToKernelShellCode (flags : ErrataFlags) : List (BitVec 8) :=
  (if flags.actlrEl1Unimplemented then actlrEl1Code else []) ++
  (if flags.amcntenset0El0Unimplemented then amcntenset0El0Code else []) ++
  (if flags.gicV3WithoutIrmFlagSupport then irmCode ++ irmX8Code else []) ++
  (if flags.psciMemprotectFailing then psciMemprotectCode else [])

/-- A 32-bit constant into a register, in two moves. -/
def moveW (rd : ℕ) (v : BitVec 32) : List Instr :=
  [.movz .w rd ((v.extractLsb' 0 16).setWidth 64) 0,
    .movk .w rd ((v.extractLsb' 16 16).setWidth 64) 16]

/-- A 64-bit constant into a register, in four moves. -/
def moveX (rd : ℕ) (v : BitVec 64) : List Instr :=
  [.movz .x rd ((v.extractLsb' 0 16).setWidth 64) 0,
    .movk .x rd ((v.extractLsb' 16 16).setWidth 64) 16,
    .movk .x rd ((v.extractLsb' 32 16).setWidth 64) 32,
    .movk .x rd ((v.extractLsb' 48 16).setWidth 64) 48]

def actlrEl1Program : List Instr :=
  List.flatten [
    [.orr .x 11 31 0, .ldrPre .x 8 11 0x10, .cmp .x 8 11, .bCond .eq 33],
    moveW 6 0xD5381028, moveW 7 0x2AE7EFD8, moveW 10 0xD503201F, moveW 9 0xD2800008,
    [.b 16,
      -- the store for a match, and the step to the next word
      .str .w 9 2 0, .addImm .x 2 2 4, .cmp .x 2 4, .bCond .cs 9,
      .ldr .w 3 2 0, .cmp .w 3 6, .bCond .eq (-6),
      .add .w 3 3 7, .cmpImm .w 3 1, .bCond .hi (-8), .str .w 10 2 0, .b (-10),
      -- the next entry of the list, and the one that starts a module
      .ldr .x 8 8 0, .cmp .x 8 11, .b 9,
      .ldr .x 2 8 0x30, .ldr .w 4 8 0x40, .add .x 4 4 2, .cmp .x 2 4, .bCond .cc (-15), .b (-8),
      .b 0, .nop]]

def amcntenset0El0Program : List Instr :=
  List.flatten [
    [.orr .x 8 31 0, .ldrPre .x 6 8 0x10, .cmp .x 6 8, .bCond .eq 25],
    moveW 5 0xD53BD2A8, moveW 7 0xD2800008,
    [.b 12,
      .addImm .x 2 2 4, .cmp .x 2 4, .bCond .cs 6,
      .ldr .w 3 2 0, .cmp .w 3 5, .bCond .ne (-5), .str .w 7 2 0, .b (-7),
      .ldr .x 6 6 0, .cmp .x 6 8, .b 9,
      .ldr .x 2 6 0x30, .ldr .w 4 6 0x40, .add .x 4 4 2, .cmp .x 2 4, .bCond .cc (-12), .b (-8),
      .b 0, .nop]]

/-- A 64-bit constant stored below `x3`. -/
def patchX (v offset : BitVec 64) : List Instr := moveX 2 v ++ [.str .x 2 3 offset]

def irmX8Program : List Instr :=
  List.flatten [
    [.orr .x 10 31 0, .ldrPre .x 9 10 0x10, .cmp .x 9 10, .bCond .eq 101,
      .movz .x 3 0 0, .movz .x 4 0 0],
    moveW 8 0xD518CBA8, moveX 7 0x0009001600090003,
    [.b 4,
      .ldr .x 9 9 0, .cmp .x 9 10, .b 19,
      .ldr .x 2 9 0x30, .ldr .w 6 9 0x40, .add .x 6 6 2, .cmp .x 2 6, .bCond .cs (-7),
      .ldr .w 5 2 0, .cmp .w 5 8, .csel .x 4 4 2 .ne,
      .ldr .x 5 2 0, .cmp .x 5 7, .csel .x 3 3 2 .ne,
      .cmpImm .x 4 0, .ccmp .x 3 0 ⟨false, true, false, false⟩ .ne, .bCond .ne (-16),
      .addImm .x 2 2 4, .cmp .x 2 6, .bCond .cc (-11), .b (-20),
      -- the branch to the code that goes where the second pattern was
      .cmpImm .x 4 0, .ccmp .x 3 0 ⟨false, true, false, false⟩ .ne, .bCond .eq 68,
      .subImm .x 2 3 0xA8, .sub .x 2 2 4, .ubfx 2 2 2 26, .movz .w 5 0x9400 16, .orr .w 2 2 5,
      .str .w 2 4 0],
    patchX 0x910003FDA9BF7BFD (-0xA8), patchX 0x9257F908B6400248 (-0xA0),
    patchX 0xAA0803F6B2400108 (-0x98), patchX 0x92780D29D53800A9 (-0x90),
    patchX 0x52800115D2800014 (-0x88), patchX 0x540000A0EB49229F (-0x80),
    patchX 0xAA0A02C8D370BE8A (-0x78), patchX 0xD5033F9FD518CBA8 (-0x70),
    patchX 0x510006B591000694 (-0x68), patchX 0x1400000235FFFF15 (-0x60),
    patchX 0xA8C17BFDD518CBA8 (-0x58),
    moveW 2 0xD65F03C0, [.str .w 2 3 (-0x50), .nop, .nop, .nop]]

def psciMemprotectProgram : List Instr :=
  List.flatten [
    [.orr .x 12 31 0, .ldrPre .x 8 12 0x10, .cmp .x 8 12, .bCond .eq 49],
    moveX 6 0xD2800003180002D5, moveX 7 0xD2800002D2800003, moveX 10 0x18000240D2800001,
    moveW 11 0xD65F03C0, moveX 9 0xD2800001D2800002,
    [.b 23,
      .ldr .x 3 2 8, .cmp .x 3 9, .bCond .eq 15,
      .addImm .x 2 2 4, .cmp .x 2 5, .bCond .cs 14,
      .ldr .x 3 2 0, .cmp .x 3 6, .bCond .eq (-8), .cmp .x 3 7, .bCond .ne (-7),
      .ldr .x 3 2 8, .andImm 3 3 0xFFFFFF7FFFFFFFFF, .cmp .x 3 10, .bCond .ne (-11),
      .str .w 11 2 (-0x1C), .b (-13), .str .w 11 2 (-0x20), .b (-15),
      .ldr .x 8 8 0, .cmp .x 8 12, .b 8,
      .ldr .x 2 8 0x30, .ldr .w 5 8 0x40, .add .x 5 5 2, .cmp .x 2 5, .bCond .cc (-20), .b (-8),
      .b 0]]

theorem actlrEl1Code_encodes : Encodes actlrEl1Code actlrEl1Program := by
  decide +kernel

theorem amcntenset0El0Code_encodes : Encodes amcntenset0El0Code amcntenset0El0Program := by
  decide +kernel

theorem irmX8Code_encodes : Encodes irmX8Code irmX8Program := by
  decide +kernel

theorem psciMemprotectCode_encodes : Encodes psciMemprotectCode psciMemprotectProgram := by
  decide +kernel

end ProjectMu
