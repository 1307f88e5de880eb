import Rxs.Core.Avx2Logic

/-!
# The code that the compiler copies

`jit_compiler_x86_static.S` as it is assembled, by parts without jumps: the bytes of each
line and the instruction that they are. `listings_valid`: the decoder reads the bytes so.
The fragments that the compiler copies are such parts with the jumps between them, and the
constants behind the code, which is aligned to 64 bytes.
-/
namespace Rxs.RandomX.JitStatic

open Rxs.Core Rxs.Core.Avx2
open Rxs.Core.X86 (Reg Mem rax rcx rdx rsp rsi)

def rbx : Reg := 3
def rbp : Reg := 5
def rdi : Reg := 7

def ptr (r : Reg) (disp : BitVec 32) : Mem := ⟨some r, none, disp⟩

/-! ## Listings -/

def dataset_init_entry : Listing := [
  ([0x53], .push rbx),
  ([0x55], .push rbp),
  ([0x41, 0x54], .push 12),
  ([0x41, 0x55], .push 13),
  ([0x41, 0x56], .push 14),
  ([0x41, 0x57], .push 15),
  ([0x48, 0x8B, 0x3F], .int (.mov true rdi (.mem (ptr rdi 0)))),
  ([0x48, 0x89, 0xD5], .int (.store (.reg rbp) rdx)),
  ([0x51], .push rcx)]

def dataset_init_item : Listing := [
  ([0x0F, 0x0D, 0x0E], .int .nop),
  ([0x48, 0x89, 0xEB], .int (.store (.reg rbx) rbp))]

def dataset_init_store : Listing := [
  ([0x4C, 0x89, 0x06], .int (.store (.mem (ptr rsi 0)) 8)),
  ([0x4C, 0x89, 0x4E, 0x08], .int (.store (.mem (ptr rsi 8)) 9)),
  ([0x4C, 0x89, 0x56, 0x10], .int (.store (.mem (ptr rsi 16)) 10)),
  ([0x4C, 0x89, 0x5E, 0x18], .int (.store (.mem (ptr rsi 24)) 11)),
  ([0x4C, 0x89, 0x66, 0x20], .int (.store (.mem (ptr rsi 32)) 12)),
  ([0x4C, 0x89, 0x6E, 0x28], .int (.store (.mem (ptr rsi 40)) 13)),
  ([0x4C, 0x89, 0x76, 0x30], .int (.store (.mem (ptr rsi 48)) 14)),
  ([0x4C, 0x89, 0x7E, 0x38], .int (.store (.mem (ptr rsi 56)) 15)),
  ([0x48, 0x83, 0xC5, 0x01], .int (.aluImm .add true rbp 1)),
  ([0x48, 0x83, 0xC6, 0x40], .int (.aluImm .add true rsi 64)),
  ([0x48, 0x3B, 0x2C, 0x24], .cmp rbp (.mem (ptr rsp 0)))]

def dataset_init_exit : Listing := [
  ([0x58], .pop rax),
  ([0x41, 0x5F], .pop 15),
  ([0x41, 0x5E], .pop 14),
  ([0x41, 0x5D], .pop 13),
  ([0x41, 0x5C], .pop 12),
  ([0x5D], .pop rbp),
  ([0x5B], .pop rbx)]

def sshash_init : Listing := [
  ([0x4C, 0x8D, 0x43, 0x01], .int (.lea true 8 (ptr rbx 1))),
  ([0x48, 0x81, 0xE3, 0xFF, 0xFF, 0x3F, 0x00], .int (.aluImm .and true rbx 4194303)),
  ([0x48, 0xC1, 0xE3, 0x06], .shl rbx 6),
  ([0x48, 0x01, 0xFB], .int (.alu .add rbx (.reg rdi))),
  ([0x0F, 0x18, 0x03], .int .nop),
  ([0x4C, 0x0F, 0xAF, 0x05, 0x63, 0x00, 0x00, 0x00], .imul 8 (.rip 99)),
  ([0x4C, 0x8B, 0x0D, 0x64, 0x00, 0x00, 0x00], .mov 9 (.rip 100)),
  ([0x4D, 0x31, 0xC1], .int (.alu .xor 9 (.reg 8))),
  ([0x4C, 0x8B, 0x15, 0x62, 0x00, 0x00, 0x00], .mov 10 (.rip 98)),
  ([0x4D, 0x31, 0xC2], .int (.alu .xor 10 (.reg 8))),
  ([0x4C, 0x8B, 0x1D, 0x60, 0x00, 0x00, 0x00], .mov 11 (.rip 96)),
  ([0x4D, 0x31, 0xC3], .int (.alu .xor 11 (.reg 8))),
  ([0x4C, 0x8B, 0x25, 0x5E, 0x00, 0x00, 0x00], .mov 12 (.rip 94)),
  ([0x4D, 0x31, 0xC4], .int (.alu .xor 12 (.reg 8))),
  ([0x4C, 0x8B, 0x2D, 0x5C, 0x00, 0x00, 0x00], .mov 13 (.rip 92)),
  ([0x4D, 0x31, 0xC5], .int (.alu .xor 13 (.reg 8))),
  ([0x4C, 0x8B, 0x35, 0x5A, 0x00, 0x00, 0x00], .mov 14 (.rip 90)),
  ([0x4D, 0x31, 0xC6], .int (.alu .xor 14 (.reg 8))),
  ([0x4C, 0x8B, 0x3D, 0x58, 0x00, 0x00, 0x00], .mov 15 (.rip 88)),
  ([0x4D, 0x31, 0xC7], .int (.alu .xor 15 (.reg 8)))]

def sshash_load : Listing := [
  ([0x4C, 0x33, 0x03], .int (.alu .xor 8 (.mem (ptr rbx 0)))),
  ([0x4C, 0x33, 0x4B, 0x08], .int (.alu .xor 9 (.mem (ptr rbx 8)))),
  ([0x4C, 0x33, 0x53, 0x10], .int (.alu .xor 10 (.mem (ptr rbx 16)))),
  ([0x4C, 0x33, 0x5B, 0x18], .int (.alu .xor 11 (.mem (ptr rbx 24)))),
  ([0x4C, 0x33, 0x63, 0x20], .int (.alu .xor 12 (.mem (ptr rbx 32)))),
  ([0x4C, 0x33, 0x6B, 0x28], .int (.alu .xor 13 (.mem (ptr rbx 40)))),
  ([0x4C, 0x33, 0x73, 0x30], .int (.alu .xor 14 (.mem (ptr rbx 48)))),
  ([0x4C, 0x33, 0x7B, 0x38], .int (.alu .xor 15 (.mem (ptr rbx 56))))]

def sshash_prefetch : Listing := [
  ([0x48, 0x81, 0xE3, 0xFF, 0xFF, 0x3F, 0x00], .int (.aluImm .and true rbx 4194303)),
  ([0x48, 0xC1, 0xE3, 0x06], .shl rbx 6),
  ([0x48, 0x01, 0xFB], .int (.alu .add rbx (.reg rdi))),
  ([0x0F, 0x18, 0x03], .int .nop)]

def avx2_entry : Listing := [
  ([0x53], .push rbx),
  ([0x55], .push rbp),
  ([0x57], .push rdi),
  ([0x56], .push rsi),
  ([0x41, 0x54], .push 12),
  ([0x41, 0x55], .push 13),
  ([0x41, 0x56], .push 14),
  ([0x41, 0x57], .push 15),
  ([0x48, 0x81, 0xEC, 0x00, 0x01, 0x00, 0x00], .int (.aluImm .sub true rsp 256)),
  ([0xF3, 0x0F, 0x7F, 0x04, 0x24], .movdquStore (ptr rsp 0) 0),
  ([0xF3, 0x0F, 0x7F, 0x4C, 0x24, 0x10], .movdquStore (ptr rsp 16) 1),
  ([0xF3, 0x0F, 0x7F, 0x54, 0x24, 0x20], .movdquStore (ptr rsp 32) 2),
  ([0xF3, 0x0F, 0x7F, 0x5C, 0x24, 0x30], .movdquStore (ptr rsp 48) 3),
  ([0xF3, 0x0F, 0x7F, 0x64, 0x24, 0x40], .movdquStore (ptr rsp 64) 4),
  ([0xF3, 0x0F, 0x7F, 0x6C, 0x24, 0x50], .movdquStore (ptr rsp 80) 5),
  ([0xF3, 0x0F, 0x7F, 0x74, 0x24, 0x60], .movdquStore (ptr rsp 96) 6),
  ([0xF3, 0x0F, 0x7F, 0x7C, 0x24, 0x70], .movdquStore (ptr rsp 112) 7),
  ([0xF3, 0x44, 0x0F, 0x7F, 0x84, 0x24, 0x80, 0x00, 0x00, 0x00], .movdquStore (ptr rsp 128) 8),
  ([0xF3, 0x44, 0x0F, 0x7F, 0x8C, 0x24, 0x90, 0x00, 0x00, 0x00], .movdquStore (ptr rsp 144) 9),
  ([0xF3, 0x44, 0x0F, 0x7F, 0x94, 0x24, 0xA0, 0x00, 0x00, 0x00], .movdquStore (ptr rsp 160) 10),
  ([0xF3, 0x44, 0x0F, 0x7F, 0x9C, 0x24, 0xB0, 0x00, 0x00, 0x00], .movdquStore (ptr rsp 176) 11),
  ([0xF3, 0x44, 0x0F, 0x7F, 0xA4, 0x24, 0xC0, 0x00, 0x00, 0x00], .movdquStore (ptr rsp 192) 12),
  ([0xF3, 0x44, 0x0F, 0x7F, 0xAC, 0x24, 0xD0, 0x00, 0x00, 0x00], .movdquStore (ptr rsp 208) 13),
  ([0xF3, 0x44, 0x0F, 0x7F, 0xB4, 0x24, 0xE0, 0x00, 0x00, 0x00], .movdquStore (ptr rsp 224) 14),
  ([0xF3, 0x44, 0x0F, 0x7F, 0xBC, 0x24, 0xF0, 0x00, 0x00, 0x00], .movdquStore (ptr rsp 240) 15),
  ([0x48, 0x8B, 0x3F], .int (.mov true rdi (.mem (ptr rdi 0)))),
  ([0x48, 0x89, 0xD5], .int (.store (.reg rbp) rdx)),
  ([0x51], .push rcx),
  ([0x48, 0x83, 0xEC, 0x28], .int (.aluImm .sub true rsp 40))]

def avx2_loop_begin : Listing := [
  ([0x0F, 0x18, 0x06], .int .nop),
  ([0x0F, 0x18, 0x46, 0x40], .int .nop),
  ([0x0F, 0x18, 0x86, 0x80, 0x00, 0x00, 0x00], .int .nop),
  ([0x0F, 0x18, 0x86, 0xC0, 0x00, 0x00, 0x00], .int .nop),
  ([0x0F, 0x18, 0x86, 0x00, 0x01, 0x00, 0x00], .int .nop),
  ([0x48, 0x89, 0xEB], .int (.store (.reg rbx) rbp)),
  ([0x48, 0x81, 0xE3, 0xFF, 0xFF, 0x3F, 0x00], .int (.aluImm .and true rbx 4194303)),
  ([0x48, 0xC1, 0xE3, 0x06], .shl rbx 6),
  ([0x48, 0x01, 0xFB], .int (.alu .add rbx (.reg rdi))),
  ([0x0F, 0x18, 0x03], .int .nop),
  ([0x48, 0x8D, 0x45, 0x01], .int (.lea true rax (ptr rbp 1))),
  ([0x48, 0x25, 0xFF, 0xFF, 0x3F, 0x00], .int (.aluImm .and true rax 4194303)),
  ([0x48, 0xC1, 0xE0, 0x06], .shl rax 6),
  ([0x48, 0x01, 0xF8], .int (.alu .add rax (.reg rdi))),
  ([0x0F, 0x18, 0x00], .int .nop),
  ([0x48, 0x89, 0x04, 0x24], .int (.store (.mem (ptr rsp 0)) rax)),
  ([0x48, 0x8D, 0x45, 0x02], .int (.lea true rax (ptr rbp 2))),
  ([0x48, 0x25, 0xFF, 0xFF, 0x3F, 0x00], .int (.aluImm .and true rax 4194303)),
  ([0x48, 0xC1, 0xE0, 0x06], .shl rax 6),
  ([0x48, 0x01, 0xF8], .int (.alu .add rax (.reg rdi))),
  ([0x0F, 0x18, 0x00], .int .nop),
  ([0x48, 0x89, 0x44, 0x24, 0x08], .int (.store (.mem (ptr rsp 8)) rax)),
  ([0x48, 0x8D, 0x45, 0x03], .int (.lea true rax (ptr rbp 3))),
  ([0x48, 0x25, 0xFF, 0xFF, 0x3F, 0x00], .int (.aluImm .and true rax 4194303)),
  ([0x48, 0xC1, 0xE0, 0x06], .shl rax 6),
  ([0x48, 0x01, 0xF8], .int (.alu .add rax (.reg rdi))),
  ([0x0F, 0x18, 0x00], .int .nop),
  ([0x48, 0x89, 0x44, 0x24, 0x10], .int (.store (.mem (ptr rsp 16)) rax)),
  ([0x48, 0x8D, 0x45, 0x04], .int (.lea true rax (ptr rbp 4))),
  ([0x48, 0x25, 0xFF, 0xFF, 0x3F, 0x00], .int (.aluImm .and true rax 4194303)),
  ([0x48, 0xC1, 0xE0, 0x06], .shl rax 6),
  ([0x48, 0x01, 0xF8], .int (.alu .add rax (.reg rdi))),
  ([0x0F, 0x18, 0x00], .int .nop),
  ([0x48, 0x89, 0x44, 0x24, 0x18], .int (.store (.mem (ptr rsp 24)) rax)),
  ([0x4C, 0x8D, 0x45, 0x01], .int (.lea true 8 (ptr rbp 1))),
  ([0x4C, 0x0F, 0xAF, 0x05, 0xEB, 0xFE, 0xFF, 0xFF], .imul 8 (.rip (-277))),
  ([0x4C, 0x8B, 0x0D, 0xEC, 0xFE, 0xFF, 0xFF], .mov 9 (.rip (-276))),
  ([0x4D, 0x31, 0xC1], .int (.alu .xor 9 (.reg 8))),
  ([0x4C, 0x8B, 0x15, 0xEA, 0xFE, 0xFF, 0xFF], .mov 10 (.rip (-278))),
  ([0x4D, 0x31, 0xC2], .int (.alu .xor 10 (.reg 8))),
  ([0x4C, 0x8B, 0x1D, 0xE8, 0xFE, 0xFF, 0xFF], .mov 11 (.rip (-280))),
  ([0x4D, 0x31, 0xC3], .int (.alu .xor 11 (.reg 8))),
  ([0x4C, 0x8B, 0x25, 0xE6, 0xFE, 0xFF, 0xFF], .mov 12 (.rip (-282))),
  ([0x4D, 0x31, 0xC4], .int (.alu .xor 12 (.reg 8))),
  ([0x4C, 0x8B, 0x2D, 0xE4, 0xFE, 0xFF, 0xFF], .mov 13 (.rip (-284))),
  ([0x4D, 0x31, 0xC5], .int (.alu .xor 13 (.reg 8))),
  ([0x4C, 0x8B, 0x35, 0xE2, 0xFE, 0xFF, 0xFF], .mov 14 (.rip (-286))),
  ([0x4D, 0x31, 0xC6], .int (.alu .xor 14 (.reg 8))),
  ([0x4C, 0x8B, 0x3D, 0xE0, 0xFE, 0xFF, 0xFF], .mov 15 (.rip (-288))),
  ([0x4D, 0x31, 0xC7], .int (.alu .xor 15 (.reg 8))),
  ([0x48, 0x89, 0x6C, 0x24, 0x20], .int (.store (.mem (ptr rsp 32)) rbp)),
  ([0xC4, 0xE2, 0x7D, 0x19, 0x44, 0x24, 0x20], .vbroadcastsd 0 (.mem (ptr rsp 32))),
  ([0xC5, 0xFD, 0xD4, 0x05, 0x69, 0xFE, 0xFF, 0xFF], .lane .vpaddq 0 0 (.rip (-407))),
  ([0xC4, 0xE2, 0x7D, 0x19, 0x0D, 0x88, 0xFE, 0xFF, 0xFF], .vbroadcastsd 1 (.rip (-376))),
  ([0xC5, 0xBD, 0x73, 0xD0, 0x20], .shift false 8 0 32),
  ([0xC5, 0xB5, 0x73, 0xD1, 0x20], .shift false 9 1 32),
  ([0xC5, 0x7D, 0xF4, 0xD1], .lane .vpmuludq 10 0 (.reg 1)),
  ([0xC5, 0x35, 0xF4, 0xD8], .lane .vpmuludq 11 9 (.reg 0)),
  ([0xC5, 0xBD, 0xF4, 0xC1], .lane .vpmuludq 0 8 (.reg 1)),
  ([0xC4, 0xC1, 0x25, 0x73, 0xF3, 0x20], .shift true 11 11 32),
  ([0xC5, 0xFD, 0x73, 0xF0, 0x20], .shift true 0 0 32),
  ([0xC4, 0x41, 0x2D, 0xD4, 0xD3], .lane .vpaddq 10 10 (.reg 11)),
  ([0xC5, 0xAD, 0xD4, 0xC0], .lane .vpaddq 0 10 (.reg 0)),
  ([0xC4, 0xE2, 0x7D, 0x19, 0x0D, 0x5D, 0xFE, 0xFF, 0xFF], .vbroadcastsd 1 (.rip (-419))),
  ([0xC5, 0xFD, 0xEF, 0xC9], .lane .vpxor 1 0 (.reg 1)),
  ([0xC4, 0xE2, 0x7D, 0x19, 0x15, 0x58, 0xFE, 0xFF, 0xFF], .vbroadcastsd 2 (.rip (-424))),
  ([0xC5, 0xFD, 0xEF, 0xD2], .lane .vpxor 2 0 (.reg 2)),
  ([0xC4, 0xE2, 0x7D, 0x19, 0x1D, 0x53, 0xFE, 0xFF, 0xFF], .vbroadcastsd 3 (.rip (-429))),
  ([0xC5, 0xFD, 0xEF, 0xDB], .lane .vpxor 3 0 (.reg 3)),
  ([0xC4, 0xE2, 0x7D, 0x19, 0x25, 0x4E, 0xFE, 0xFF, 0xFF], .vbroadcastsd 4 (.rip (-434))),
  ([0xC5, 0xFD, 0xEF, 0xE4], .lane .vpxor 4 0 (.reg 4)),
  ([0xC4, 0xE2, 0x7D, 0x19, 0x2D, 0x49, 0xFE, 0xFF, 0xFF], .vbroadcastsd 5 (.rip (-439))),
  ([0xC5, 0xFD, 0xEF, 0xED], .lane .vpxor 5 0 (.reg 5)),
  ([0xC4, 0xE2, 0x7D, 0x19, 0x35, 0x44, 0xFE, 0xFF, 0xFF], .vbroadcastsd 6 (.rip (-444))),
  ([0xC5, 0xFD, 0xEF, 0xF6], .lane .vpxor 6 0 (.reg 6)),
  ([0xC4, 0xE2, 0x7D, 0x19, 0x3D, 0x3F, 0xFE, 0xFF, 0xFF], .vbroadcastsd 7 (.rip (-449))),
  ([0xC5, 0xFD, 0xEF, 0xFF], .lane .vpxor 7 0 (.reg 7)),
  ([0xC4, 0x62, 0x7D, 0x19, 0x3D, 0xF2, 0xFD, 0xFF, 0xFF], .vbroadcastsd 15 (.rip (-526))),
  ([0xC4, 0xC1, 0x0D, 0x73, 0xF7, 0x1F], .shift true 14 15 31)]

def avx2_loop_end : Listing := [
  ([0x4C, 0x89, 0x06], .int (.store (.mem (ptr rsi 0)) 8)),
  ([0xC5, 0x7D, 0x6C, 0xC1], .shuffle .vpunpcklqdq 8 0 1),
  ([0x4C, 0x89, 0x4E, 0x08], .int (.store (.mem (ptr rsi 8)) 9)),
  ([0xC5, 0x6D, 0x6C, 0xCB], .shuffle .vpunpcklqdq 9 2 3),
  ([0x4C, 0x89, 0x56, 0x10], .int (.store (.mem (ptr rsi 16)) 10)),
  ([0xC5, 0x5D, 0x6C, 0xD5], .shuffle .vpunpcklqdq 10 4 5),
  ([0x4C, 0x89, 0x5E, 0x18], .int (.store (.mem (ptr rsi 24)) 11)),
  ([0xC5, 0x4D, 0x6C, 0xDF], .shuffle .vpunpcklqdq 11 6 7),
  ([0x4C, 0x89, 0x66, 0x20], .int (.store (.mem (ptr rsi 32)) 12)),
  ([0xC5, 0x7D, 0x6D, 0xE1], .shuffle .vpunpckhqdq 12 0 1),
  ([0x4C, 0x89, 0x6E, 0x28], .int (.store (.mem (ptr rsi 40)) 13)),
  ([0xC5, 0x6D, 0x6D, 0xEB], .shuffle .vpunpckhqdq 13 2 3),
  ([0x4C, 0x89, 0x76, 0x30], .int (.store (.mem (ptr rsi 48)) 14)),
  ([0xC5, 0x5D, 0x6D, 0xF5], .shuffle .vpunpckhqdq 14 4 5),
  ([0x4C, 0x89, 0x7E, 0x38], .int (.store (.mem (ptr rsi 56)) 15)),
  ([0xC5, 0x4D, 0x6D, 0xFF], .shuffle .vpunpckhqdq 15 6 7),
  ([0xC4, 0xC3, 0x3D, 0x46, 0xC1, 0x20], .shuffle (.vperm2i128 32) 0 8 9),
  ([0xC4, 0xC3, 0x2D, 0x46, 0xCB, 0x20], .shuffle (.vperm2i128 32) 1 10 11),
  ([0xC5, 0xFE, 0x7F, 0x46, 0x40], .vmovdquStore (ptr rsi 64) 0),
  ([0xC5, 0xFE, 0x7F, 0x4E, 0x60], .vmovdquStore (ptr rsi 96) 1),
  ([0xC4, 0xC3, 0x1D, 0x46, 0xD5, 0x20], .shuffle (.vperm2i128 32) 2 12 13),
  ([0xC4, 0xC3, 0x0D, 0x46, 0xDF, 0x20], .shuffle (.vperm2i128 32) 3 14 15),
  ([0xC5, 0xFE, 0x7F, 0x96, 0x80, 0x00, 0x00, 0x00], .vmovdquStore (ptr rsi 128) 2),
  ([0xC5, 0xFE, 0x7F, 0x9E, 0xA0, 0x00, 0x00, 0x00], .vmovdquStore (ptr rsi 160) 3),
  ([0xC4, 0xC3, 0x3D, 0x46, 0xE1, 0x31], .shuffle (.vperm2i128 49) 4 8 9),
  ([0xC4, 0xC3, 0x2D, 0x46, 0xEB, 0x31], .shuffle (.vperm2i128 49) 5 10 11),
  ([0xC5, 0xFE, 0x7F, 0xA6, 0xC0, 0x00, 0x00, 0x00], .vmovdquStore (ptr rsi 192) 4),
  ([0xC5, 0xFE, 0x7F, 0xAE, 0xE0, 0x00, 0x00, 0x00], .vmovdquStore (ptr rsi 224) 5),
  ([0xC4, 0xC3, 0x1D, 0x46, 0xF5, 0x31], .shuffle (.vperm2i128 49) 6 12 13),
  ([0xC4, 0xC3, 0x0D, 0x46, 0xFF, 0x31], .shuffle (.vperm2i128 49) 7 14 15),
  ([0xC5, 0xFE, 0x7F, 0xB6, 0x00, 0x01, 0x00, 0x00], .vmovdquStore (ptr rsi 256) 6),
  ([0xC5, 0xFE, 0x7F, 0xBE, 0x20, 0x01, 0x00, 0x00], .vmovdquStore (ptr rsi 288) 7),
  ([0x48, 0x83, 0xC5, 0x05], .int (.aluImm .add true rbp 5)),
  ([0x48, 0x81, 0xC6, 0x40, 0x01, 0x00, 0x00], .int (.aluImm .add true rsi 320)),
  ([0x48, 0x3B, 0x6C, 0x24, 0x28], .cmp rbp (.mem (ptr rsp 40)))]

def avx2_epilogue : Listing := [
  ([0x48, 0x83, 0xC4, 0x28], .int (.aluImm .add true rsp 40)),
  ([0x41, 0x59], .pop 9),
  ([0xF3, 0x0F, 0x6F, 0x04, 0x24], .movdquLoad 0 (ptr rsp 0)),
  ([0xF3, 0x0F, 0x6F, 0x4C, 0x24, 0x10], .movdquLoad 1 (ptr rsp 16)),
  ([0xF3, 0x0F, 0x6F, 0x54, 0x24, 0x20], .movdquLoad 2 (ptr rsp 32)),
  ([0xF3, 0x0F, 0x6F, 0x5C, 0x24, 0x30], .movdquLoad 3 (ptr rsp 48)),
  ([0xF3, 0x0F, 0x6F, 0x64, 0x24, 0x40], .movdquLoad 4 (ptr rsp 64)),
  ([0xF3, 0x0F, 0x6F, 0x6C, 0x24, 0x50], .movdquLoad 5 (ptr rsp 80)),
  ([0xF3, 0x0F, 0x6F, 0x74, 0x24, 0x60], .movdquLoad 6 (ptr rsp 96)),
  ([0xF3, 0x0F, 0x6F, 0x7C, 0x24, 0x70], .movdquLoad 7 (ptr rsp 112)),
  ([0xF3, 0x44, 0x0F, 0x6F, 0x84, 0x24, 0x80, 0x00, 0x00, 0x00], .movdquLoad 8 (ptr rsp 128)),
  ([0xF3, 0x44, 0x0F, 0x6F, 0x8C, 0x24, 0x90, 0x00, 0x00, 0x00], .movdquLoad 9 (ptr rsp 144)),
  ([0xF3, 0x44, 0x0F, 0x6F, 0x94, 0x24, 0xA0, 0x00, 0x00, 0x00], .movdquLoad 10 (ptr rsp 160)),
  ([0xF3, 0x44, 0x0F, 0x6F, 0x9C, 0x24, 0xB0, 0x00, 0x00, 0x00], .movdquLoad 11 (ptr rsp 176)),
  ([0xF3, 0x44, 0x0F, 0x6F, 0xA4, 0x24, 0xC0, 0x00, 0x00, 0x00], .movdquLoad 12 (ptr rsp 192)),
  ([0xF3, 0x44, 0x0F, 0x6F, 0xAC, 0x24, 0xD0, 0x00, 0x00, 0x00], .movdquLoad 13 (ptr rsp 208)),
  ([0xF3, 0x44, 0x0F, 0x6F, 0xB4, 0x24, 0xE0, 0x00, 0x00, 0x00], .movdquLoad 14 (ptr rsp 224)),
  ([0xF3, 0x44, 0x0F, 0x6F, 0xBC, 0x24, 0xF0, 0x00, 0x00, 0x00], .movdquLoad 15 (ptr rsp 240)),
  ([0xC5, 0xF8, 0x77], .vzeroupper),
  ([0x48, 0x81, 0xC4, 0x00, 0x01, 0x00, 0x00], .int (.aluImm .add true rsp 256)),
  ([0x41, 0x5F], .pop 15),
  ([0x41, 0x5E], .pop 14),
  ([0x41, 0x5D], .pop 13),
  ([0x41, 0x5C], .pop 12),
  ([0x5E], .pop rsi),
  ([0x5F], .pop rdi),
  ([0x5D], .pop rbp),
  ([0x5B], .pop rbx)]

def avx2_ssh_load : Listing := [
  ([0x48, 0x83, 0xEC, 0x28], .int (.aluImm .sub true rsp 40)),
  ([0x48, 0x89, 0x1C, 0x24], .int (.store (.mem (ptr rsp 0)) rbx)),
  ([0xC5, 0x7E, 0x7F, 0x74, 0x24, 0x08], .vmovdquStore (ptr rsp 8) 14),
  ([0x48, 0x8B, 0x44, 0x24, 0x28], .int (.mov true rax (.mem (ptr rsp 40)))),
  ([0x48, 0x8B, 0x5C, 0x24, 0x30], .int (.mov true rbx (.mem (ptr rsp 48)))),
  ([0x48, 0x8B, 0x4C, 0x24, 0x38], .int (.mov true rcx (.mem (ptr rsp 56)))),
  ([0x48, 0x8B, 0x54, 0x24, 0x40], .int (.mov true rdx (.mem (ptr rsp 64)))),
  ([0xC5, 0x7E, 0x6F, 0x00], .vmovdquLoad 8 (ptr rax 0)),
  ([0xC5, 0x7E, 0x6F, 0x0B], .vmovdquLoad 9 (ptr rbx 0)),
  ([0xC5, 0x7E, 0x6F, 0x11], .vmovdquLoad 10 (ptr rcx 0)),
  ([0xC5, 0x7E, 0x6F, 0x1A], .vmovdquLoad 11 (ptr rdx 0)),
  ([0xC4, 0x41, 0x3D, 0x6C, 0xE1], .shuffle .vpunpcklqdq 12 8 9),
  ([0xC4, 0x41, 0x2D, 0x6C, 0xEB], .shuffle .vpunpcklqdq 13 10 11),
  ([0xC4, 0x43, 0x1D, 0x46, 0xF5, 0x20], .shuffle (.vperm2i128 32) 14 12 13),
  ([0xC4, 0xC1, 0x7D, 0xEF, 0xC6], .lane .vpxor 0 0 (.reg 14)),
  ([0xC4, 0x43, 0x1D, 0x46, 0xF5, 0x31], .shuffle (.vperm2i128 49) 14 12 13),
  ([0xC4, 0xC1, 0x6D, 0xEF, 0xD6], .lane .vpxor 2 2 (.reg 14)),
  ([0xC4, 0x41, 0x3D, 0x6D, 0xE1], .shuffle .vpunpckhqdq 12 8 9),
  ([0xC4, 0x41, 0x2D, 0x6D, 0xEB], .shuffle .vpunpckhqdq 13 10 11),
  ([0xC4, 0x43, 0x1D, 0x46, 0xF5, 0x20], .shuffle (.vperm2i128 32) 14 12 13),
  ([0xC4, 0xC1, 0x75, 0xEF, 0xCE], .lane .vpxor 1 1 (.reg 14)),
  ([0xC4, 0x43, 0x1D, 0x46, 0xF5, 0x31], .shuffle (.vperm2i128 49) 14 12 13),
  ([0xC4, 0xC1, 0x65, 0xEF, 0xDE], .lane .vpxor 3 3 (.reg 14)),
  ([0xC5, 0x7E, 0x6F, 0x40, 0x20], .vmovdquLoad 8 (ptr rax 32)),
  ([0xC5, 0x7E, 0x6F, 0x4B, 0x20], .vmovdquLoad 9 (ptr rbx 32)),
  ([0xC5, 0x7E, 0x6F, 0x51, 0x20], .vmovdquLoad 10 (ptr rcx 32)),
  ([0xC5, 0x7E, 0x6F, 0x5A, 0x20], .vmovdquLoad 11 (ptr rdx 32)),
  ([0xC4, 0x41, 0x3D, 0x6C, 0xE1], .shuffle .vpunpcklqdq 12 8 9),
  ([0xC4, 0x41, 0x2D, 0x6C, 0xEB], .shuffle .vpunpcklqdq 13 10 11),
  ([0xC4, 0x43, 0x1D, 0x46, 0xF5, 0x20], .shuffle (.vperm2i128 32) 14 12 13),
  ([0xC4, 0xC1, 0x5D, 0xEF, 0xE6], .lane .vpxor 4 4 (.reg 14)),
  ([0xC4, 0x43, 0x1D, 0x46, 0xF5, 0x31], .shuffle (.vperm2i128 49) 14 12 13),
  ([0xC4, 0xC1, 0x4D, 0xEF, 0xF6], .lane .vpxor 6 6 (.reg 14)),
  ([0xC4, 0x41, 0x3D, 0x6D, 0xE1], .shuffle .vpunpckhqdq 12 8 9),
  ([0xC4, 0x41, 0x2D, 0x6D, 0xEB], .shuffle .vpunpckhqdq 13 10 11),
  ([0xC4, 0x43, 0x1D, 0x46, 0xF5, 0x20], .shuffle (.vperm2i128 32) 14 12 13),
  ([0xC4, 0xC1, 0x55, 0xEF, 0xEE], .lane .vpxor 5 5 (.reg 14)),
  ([0xC4, 0x43, 0x1D, 0x46, 0xF5, 0x31], .shuffle (.vperm2i128 49) 14 12 13),
  ([0xC4, 0xC1, 0x45, 0xEF, 0xFE], .lane .vpxor 7 7 (.reg 14)),
  ([0x48, 0x8B, 0x1C, 0x24], .int (.mov true rbx (.mem (ptr rsp 0)))),
  ([0xC5, 0x7E, 0x6F, 0x74, 0x24, 0x08], .vmovdquLoad 14 (ptr rsp 8)),
  ([0x48, 0x83, 0xC4, 0x28], .int (.aluImm .add true rsp 40))]

def avx2_ssh_prefetch : Listing := [
  ([0xC5, 0xFE, 0x7F, 0x04, 0x24], .vmovdquStore (ptr rsp 0) 0),
  ([0x48, 0x8B, 0x04, 0x24], .int (.mov true rax (.mem (ptr rsp 0)))),
  ([0x48, 0x25, 0xFF, 0xFF, 0x3F, 0x00], .int (.aluImm .and true rax 4194303)),
  ([0x48, 0xC1, 0xE0, 0x06], .shl rax 6),
  ([0x48, 0x01, 0xF8], .int (.alu .add rax (.reg rdi))),
  ([0x48, 0x89, 0x04, 0x24], .int (.store (.mem (ptr rsp 0)) rax)),
  ([0x0F, 0x18, 0x00], .int .nop),
  ([0x48, 0x8B, 0x44, 0x24, 0x08], .int (.mov true rax (.mem (ptr rsp 8)))),
  ([0x48, 0x25, 0xFF, 0xFF, 0x3F, 0x00], .int (.aluImm .and true rax 4194303)),
  ([0x48, 0xC1, 0xE0, 0x06], .shl rax 6),
  ([0x48, 0x01, 0xF8], .int (.alu .add rax (.reg rdi))),
  ([0x48, 0x89, 0x44, 0x24, 0x08], .int (.store (.mem (ptr rsp 8)) rax)),
  ([0x0F, 0x18, 0x00], .int .nop),
  ([0x48, 0x8B, 0x44, 0x24, 0x10], .int (.mov true rax (.mem (ptr rsp 16)))),
  ([0x48, 0x25, 0xFF, 0xFF, 0x3F, 0x00], .int (.aluImm .and true rax 4194303)),
  ([0x48, 0xC1, 0xE0, 0x06], .shl rax 6),
  ([0x48, 0x01, 0xF8], .int (.alu .add rax (.reg rdi))),
  ([0x48, 0x89, 0x44, 0x24, 0x10], .int (.store (.mem (ptr rsp 16)) rax)),
  ([0x0F, 0x18, 0x00], .int .nop),
  ([0x48, 0x8B, 0x44, 0x24, 0x18], .int (.mov true rax (.mem (ptr rsp 24)))),
  ([0x48, 0x25, 0xFF, 0xFF, 0x3F, 0x00], .int (.aluImm .and true rax 4194303)),
  ([0x48, 0xC1, 0xE0, 0x06], .shl rax 6),
  ([0x48, 0x01, 0xF8], .int (.alu .add rax (.reg rdi))),
  ([0x48, 0x89, 0x44, 0x24, 0x18], .int (.store (.mem (ptr rsp 24)) rax)),
  ([0x0F, 0x18, 0x00], .int .nop),
  ([0x66, 0x66, 0x2E, 0x0F, 0x1F, 0x84, 0x00, 0x00, 0x00, 0x00, 0x00], .int .nop),
  ([0x0F, 0x1F, 0x44, 0x00, 0x00], .int .nop)]

/-- All of them. -/
def listings : List Listing :=
  [dataset_init_entry, dataset_init_item, dataset_init_store, dataset_init_exit, sshash_init,
    sshash_load, sshash_prefetch, avx2_entry, avx2_loop_begin, avx2_loop_end, avx2_epilogue,
    avx2_ssh_load, avx2_ssh_prefetch]

/-- **Every line is right.** -/
theorem listings_valid : ∀ l ∈ listings, l.Valid := by
  simp only [listings, Listing.Valid, List.forall_mem_cons, dataset_init_entry, dataset_init_item,
    dataset_init_store, dataset_init_exit, sshash_init, sshash_load, sshash_prefetch, avx2_entry,
    avx2_loop_begin, avx2_loop_end, avx2_epilogue, avx2_ssh_load, avx2_ssh_prefetch,
    List.Forall]
  repeat' apply And.intro
  all_goals first
    | exact List.cons_ne_nil _ _
    | exact fun _ => rfl
    | exact fun _ => decode_foreign (by decide) _
    | exact fun _ => decode_rex_foreign (by decide) _
    | exact nofun

/-! ## Fragments -/

/-- mirrors src/crypto/randomx/asm/program_sshash_constants.inc -/
def sshash_constants : Bytes :=
  [0x2D, 0x7F, 0x95, 0x4C, 0x2D, 0xF4, 0x51, 0x58,
    0xFC, 0xA1, 0xF5, 0x59, 0x8A, 0x97, 0x0A, 0x81,
    0x46, 0xD8, 0xC2, 0x38, 0xDF, 0x99, 0x70, 0xA7,
    0x5C, 0x49, 0x22, 0xBF, 0x1C, 0xB9, 0x26, 0x81,
    0x62, 0x8A, 0x9F, 0x17, 0x97, 0x25, 0x4D, 0x49,
    0x0C, 0xEC, 0xAA, 0xCE, 0xB9, 0xEF, 0x37, 0x92,
    0x78, 0x2D, 0xE6, 0x6C, 0x74, 0x56, 0x2A, 0x2F,
    0x4E, 0xE5, 0x2C, 0xB6, 0xF7, 0x3B, 0x85, 0x84]

/-- mirrors src/crypto/randomx/asm/program_sshash_avx2_constants.inc -/
def avx2_constants : Bytes :=
  [0x02, 0x00, 0x00, 0x00, 0x00, 0x00, 0x00, 0x00, 0x03, 0x00, 0x00, 0x00, 0x00, 0x00, 0x00, 0x00,
    0x04, 0x00, 0x00, 0x00, 0x00, 0x00, 0x00, 0x00, 0x05, 0x00, 0x00, 0x00, 0x00, 0x00, 0x00, 0x00,
    0x00, 0x00, 0x00, 0x00, 0x01, 0x00, 0x00, 0x00] ++ sshash_constants

/-- A `nop` of eleven bytes, for alignment. -/
def nop11 : Bytes := [0x66, 0x66, 0x2E, 0x0F, 0x1F, 0x84, 0x00, 0x00, 0x00, 0x00, 0x00]

/-- `init_block_loop` is called at 32768 from where the fragment starts.
mirrors src/crypto/randomx/jit_compiler_x86_static.S:158-194 -/
def dataset_init : Bytes :=
  dataset_init_entry.bytes ++ dataset_init_item.bytes ++ [0xE8, 0xE4, 0x7F, 0x00, 0x00] ++
    dataset_init_store.bytes ++ [0x72, 0xC8] ++ dataset_init_exit.bytes ++ [0xC3] ++
    nop11 ++ nop11 ++ nop11 ++ [0x66, 0x2E, 0x0F, 0x1F, 0x84, 0x00, 0x00, 0x00, 0x00, 0x00]

/-- mirrors src/crypto/randomx/jit_compiler_x86_static.S:297-319 -/
def randomx_sshash_init : Bytes :=
  sshash_init.bytes ++ [0xEB, 0x5B] ++ nop11 ++ nop11 ++ [0x0F, 0x1F, 0x44, 0x00, 0x00] ++
    sshash_constants

/-- mirrors src/crypto/randomx/jit_compiler_x86_static.S:198-266 -/
def randomx_dataset_init_avx2_prologue : Bytes :=
  avx2_entry.bytes ++ [0xE9, 0x9E, 0x00, 0x00, 0x00] ++ avx2_constants ++
    [0x90] ++ nop11 ++ nop11 ++ nop11 ++ nop11 ++
    [0x66, 0x0F, 0x1F, 0x84, 0x00, 0x00, 0x00, 0x00, 0x00] ++ avx2_loop_begin.bytes

/-- The distance of the jump is patched in.
mirrors src/crypto/randomx/asm/program_sshash_avx2_loop_end.inc -/
def randomx_dataset_init_avx2_loop_end : Bytes :=
  avx2_loop_end.bytes ++ [0x0F, 0x82, 0x00, 0x00, 0x00, 0x00]

/-- mirrors src/crypto/randomx/asm/program_sshash_avx2_epilogue.inc -/
def randomx_dataset_init_avx2_epilogue : Bytes := avx2_epilogue.bytes ++ [0xC3]

theorem length_dataset_init : dataset_init.length = 128 := by
  decide +kernel

theorem length_prologue : randomx_dataset_init_avx2_prologue.length = 726 := by
  decide +kernel

end Rxs.RandomX.JitStatic
