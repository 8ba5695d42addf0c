/-!
# Opcode tables

A row gives the code of an instruction within its opcode space, its mnemonic, and the `Shape` of the immediates
that follow it. Reading an instruction needs nothing else, so a new instruction is a new row.

* `coreRows`: the core instructions, with those of the tail-call and the older exception-handling proposals. Their
  opcode is a single byte.
* `miscRows`: saturating conversions, bulk memory and tables, behind the byte `0xFC`.
* `simdRows`: the vector instructions, behind the byte `0xFD`.
* `atomicRows`: the instructions on shared memory, behind the byte `0xFE`.
-/
namespace WasmBinary

/-- What follows an opcode. -/
inductive Shape where
  | none
  | block         -- a block type and nested instructions
  | index
  | indexPair
  | branchTable
  | i32
  | i64
  | f32
  | f64
  | memArg
  | memArgLane
  | lane
  | v128
  | selectTyped   -- the result types of a `select`
  | refNull       -- the type of a null reference
  | reserved      -- one byte that carries nothing
  deriving DecidableEq

namespace Opcode

structure Row where
  code : Nat
  mnemonic : String
  shape : Shape
  deriving DecidableEq

/-! ## Core opcodes -/

def coreRows : List Row := [
  ⟨0x00, "unreachable", .none⟩,
  ⟨0x01, "nop", .none⟩,
  ⟨0x02, "block", .block⟩,
  ⟨0x03, "loop", .block⟩,
  ⟨0x04, "if", .block⟩,
  ⟨0x06, "try", .block⟩,
  ⟨0x07, "catch", .index⟩,
  ⟨0x08, "throw", .index⟩,
  ⟨0x09, "rethrow", .index⟩,
  ⟨0x0C, "br", .index⟩,
  ⟨0x0D, "br_if", .index⟩,
  ⟨0x0E, "br_table", .branchTable⟩,
  ⟨0x0F, "return", .none⟩,
  ⟨0x10, "call", .index⟩,
  ⟨0x11, "call_indirect", .indexPair⟩,
  ⟨0x12, "return_call", .index⟩,
  ⟨0x13, "return_call_indirect", .indexPair⟩,
  ⟨0x19, "catch_all", .none⟩,
  ⟨0x1A, "drop", .none⟩,
  ⟨0x1B, "select", .none⟩,
  ⟨0x1C, "select", .selectTyped⟩,
  ⟨0x20, "local.get", .index⟩,
  ⟨0x21, "local.set", .index⟩,
  ⟨0x22, "local.tee", .index⟩,
  ⟨0x23, "global.get", .index⟩,
  ⟨0x24, "global.set", .index⟩,
  ⟨0x25, "table.get", .index⟩,
  ⟨0x26, "table.set", .index⟩,
  ⟨0x28, "i32.load", .memArg⟩,
  ⟨0x29, "i64.load", .memArg⟩,
  ⟨0x2A, "f32.load", .memArg⟩,
  ⟨0x2B, "f64.load", .memArg⟩,
  ⟨0x2C, "i32.load8_s", .memArg⟩,
  ⟨0x2D, "i32.load8_u", .memArg⟩,
  ⟨0x2E, "i32.load16_s", .memArg⟩,
  ⟨0x2F, "i32.load16_u", .memArg⟩,
  ⟨0x30, "i64.load8_s", .memArg⟩,
  ⟨0x31, "i64.load8_u", .memArg⟩,
  ⟨0x32, "i64.load16_s", .memArg⟩,
  ⟨0x33, "i64.load16_u", .memArg⟩,
  ⟨0x34, "i64.load32_s", .memArg⟩,
  ⟨0x35, "i64.load32_u", .memArg⟩,
  ⟨0x36, "i32.store", .memArg⟩,
  ⟨0x37, "i64.store", .memArg⟩,
  ⟨0x38, "f32.store", .memArg⟩,
  ⟨0x39, "f64.store", .memArg⟩,
  ⟨0x3A, "i32.store8", .memArg⟩,
  ⟨0x3B, "i32.store16", .memArg⟩,
  ⟨0x3C, "i64.store8", .memArg⟩,
  ⟨0x3D, "i64.store16", .memArg⟩,
  ⟨0x3E, "i64.store32", .memArg⟩,
  ⟨0x3F, "memory.size", .index⟩,
  ⟨0x40, "memory.grow", .index⟩,
  ⟨0x41, "i32.const", .i32⟩,
  ⟨0x42, "i64.const", .i64⟩,
  ⟨0x43, "f32.const", .f32⟩,
  ⟨0x44, "f64.const", .f64⟩,
  ⟨0x45, "i32.eqz", .none⟩,
  ⟨0x46, "i32.eq", .none⟩,
  ⟨0x47, "i32.ne", .none⟩,
  ⟨0x48, "i32.lt_s", .none⟩,
  ⟨0x49, "i32.lt_u", .none⟩,
  ⟨0x4A, "i32.gt_s", .none⟩,
  ⟨0x4B, "i32.gt_u", .none⟩,
  ⟨0x4C, "i32.le_s", .none⟩,
  ⟨0x4D, "i32.le_u", .none⟩,
  ⟨0x4E, "i32.ge_s", .none⟩,
  ⟨0x4F, "i32.ge_u", .none⟩,
  ⟨0x50, "i64.eqz", .none⟩,
  ⟨0x51, "i64.eq", .none⟩,
  ⟨0x52, "i64.ne", .none⟩,
  ⟨0x53, "i64.lt_s", .none⟩,
  ⟨0x54, "i64.lt_u", .none⟩,
  ⟨0x55, "i64.gt_s", .none⟩,
  ⟨0x56, "i64.gt_u", .none⟩,
  ⟨0x57, "i64.le_s", .none⟩,
  ⟨0x58, "i64.le_u", .none⟩,
  ⟨0x59, "i64.ge_s", .none⟩,
  ⟨0x5A, "i64.ge_u", .none⟩,
  ⟨0x5B, "f32.eq", .none⟩,
  ⟨0x5C, "f32.ne", .none⟩,
  ⟨0x5D, "f32.lt", .none⟩,
  ⟨0x5E, "f32.gt", .none⟩,
  ⟨0x5F, "f32.le", .none⟩,
  ⟨0x60, "f32.ge", .none⟩,
  ⟨0x61, "f64.eq", .none⟩,
  ⟨0x62, "f64.ne", .none⟩,
  ⟨0x63, "f64.lt", .none⟩,
  ⟨0x64, "f64.gt", .none⟩,
  ⟨0x65, "f64.le", .none⟩,
  ⟨0x66, "f64.ge", .none⟩,
  ⟨0x67, "i32.clz", .none⟩,
  ⟨0x68, "i32.ctz", .none⟩,
  ⟨0x69, "i32.popcnt", .none⟩,
  ⟨0x6A, "i32.add", .none⟩,
  ⟨0x6B, "i32.sub", .none⟩,
  ⟨0x6C, "i32.mul", .none⟩,
  ⟨0x6D, "i32.div_s", .none⟩,
  ⟨0x6E, "i32.div_u", .none⟩,
  ⟨0x6F, "i32.rem_s", .none⟩,
  ⟨0x70, "i32.rem_u", .none⟩,
  ⟨0x71, "i32.and", .none⟩,
  ⟨0x72, "i32.or", .none⟩,
  ⟨0x73, "i32.xor", .none⟩,
  ⟨0x74, "i32.shl", .none⟩,
  ⟨0x75, "i32.shr_s", .none⟩,
  ⟨0x76, "i32.shr_u", .none⟩,
  ⟨0x77, "i32.rotl", .none⟩,
  ⟨0x78, "i32.rotr", .none⟩,
  ⟨0x79, "i64.clz", .none⟩,
  ⟨0x7A, "i64.ctz", .none⟩,
  ⟨0x7B, "i64.popcnt", .none⟩,
  ⟨0x7C, "i64.add", .none⟩,
  ⟨0x7D, "i64.sub", .none⟩,
  ⟨0x7E, "i64.mul", .none⟩,
  ⟨0x7F, "i64.div_s", .none⟩,
  ⟨0x80, "i64.div_u", .none⟩,
  ⟨0x81, "i64.rem_s", .none⟩,
  ⟨0x82, "i64.rem_u", .none⟩,
  ⟨0x83, "i64.and", .none⟩,
  ⟨0x84, "i64.or", .none⟩,
  ⟨0x85, "i64.xor", .none⟩,
  ⟨0x86, "i64.shl", .none⟩,
  ⟨0x87, "i64.shr_s", .none⟩,
  ⟨0x88, "i64.shr_u", .none⟩,
  ⟨0x89, "i64.rotl", .none⟩,
  ⟨0x8A, "i64.rotr", .none⟩,
  ⟨0x8B, "f32.abs", .none⟩,
  ⟨0x8C, "f32.neg", .none⟩,
  ⟨0x8D, "f32.ceil", .none⟩,
  ⟨0x8E, "f32.floor", .none⟩,
  ⟨0x8F, "f32.trunc", .none⟩,
  ⟨0x90, "f32.nearest", .none⟩,
  ⟨0x91, "f32.sqrt", .none⟩,
  ⟨0x92, "f32.add", .none⟩,
  ⟨0x93, "f32.sub", .none⟩,
  ⟨0x94, "f32.mul", .none⟩,
  ⟨0x95, "f32.div", .none⟩,
  ⟨0x96, "f32.min", .none⟩,
  ⟨0x97, "f32.max", .none⟩,
  ⟨0x98, "f32.copysign", .none⟩,
  ⟨0x99, "f64.abs", .none⟩,
  ⟨0x9A, "f64.neg", .none⟩,
  ⟨0x9B, "f64.ceil", .none⟩,
  ⟨0x9C, "f64.floor", .none⟩,
  ⟨0x9D, "f64.trunc", .none⟩,
  ⟨0x9E, "f64.nearest", .none⟩,
  ⟨0x9F, "f64.sqrt", .none⟩,
  ⟨0xA0, "f64.add", .none⟩,
  ⟨0xA1, "f64.sub", .none⟩,
  ⟨0xA2, "f64.mul", .none⟩,
  ⟨0xA3, "f64.div", .none⟩,
  ⟨0xA4, "f64.min", .none⟩,
  ⟨0xA5, "f64.max", .none⟩,
  ⟨0xA6, "f64.copysign", .none⟩,
  ⟨0xA7, "i32.wrap_i64", .none⟩,
  ⟨0xA8, "i32.trunc_f32_s", .none⟩,
  ⟨0xA9, "i32.trunc_f32_u", .none⟩,
  ⟨0xAA, "i32.trunc_f64_s", .none⟩,
  ⟨0xAB, "i32.trunc_f64_u", .none⟩,
  ⟨0xAC, "i64.extend_i32_s", .none⟩,
  ⟨0xAD, "i64.extend_i32_u", .none⟩,
  ⟨0xAE, "i64.trunc_f32_s", .none⟩,
  ⟨0xAF, "i64.trunc_f32_u", .none⟩,
  ⟨0xB0, "i64.trunc_f64_s", .none⟩,
  ⟨0xB1, "i64.trunc_f64_u", .none⟩,
  ⟨0xB2, "f32.convert_i32_s", .none⟩,
  ⟨0xB3, "f32.convert_i32_u", .none⟩,
  ⟨0xB4, "f32.convert_i64_s", .none⟩,
  ⟨0xB5, "f32.convert_i64_u", .none⟩,
  ⟨0xB6, "f32.demote_f64", .none⟩,
  ⟨0xB7, "f64.convert_i32_s", .none⟩,
  ⟨0xB8, "f64.convert_i32_u", .none⟩,
  ⟨0xB9, "f64.convert_i64_s", .none⟩,
  ⟨0xBA, "f64.convert_i64_u", .none⟩,
  ⟨0xBB, "f64.promote_f32", .none⟩,
  ⟨0xBC, "i32.reinterpret_f32", .none⟩,
  ⟨0xBD, "i64.reinterpret_f64", .none⟩,
  ⟨0xBE, "f32.reinterpret_i32", .none⟩,
  ⟨0xBF, "f64.reinterpret_i64", .none⟩,
  ⟨0xC0, "i32.extend8_s", .none⟩,
  ⟨0xC1, "i32.extend16_s", .none⟩,
  ⟨0xC2, "i64.extend8_s", .none⟩,
  ⟨0xC3, "i64.extend16_s", .none⟩,
  ⟨0xC4, "i64.extend32_s", .none⟩,
  ⟨0xD0, "ref.null", .refNull⟩,
  ⟨0xD1, "ref.is_null", .none⟩,
  ⟨0xD2, "ref.func", .index⟩]

/-! ## Saturating, bulk-memory and table opcodes -/

def miscRows : List Row := [
  ⟨0x00, "i32.trunc_sat_f32_s", .none⟩,
  ⟨0x01, "i32.trunc_sat_f32_u", .none⟩,
  ⟨0x02, "i32.trunc_sat_f64_s", .none⟩,
  ⟨0x03, "i32.trunc_sat_f64_u", .none⟩,
  ⟨0x04, "i64.trunc_sat_f32_s", .none⟩,
  ⟨0x05, "i64.trunc_sat_f32_u", .none⟩,
  ⟨0x06, "i64.trunc_sat_f64_s", .none⟩,
  ⟨0x07, "i64.trunc_sat_f64_u", .none⟩,
  ⟨0x08, "memory.init", .indexPair⟩,
  ⟨0x09, "data.drop", .index⟩,
  ⟨0x0A, "memory.copy", .indexPair⟩,
  ⟨0x0B, "memory.fill", .index⟩,
  ⟨0x0C, "table.init", .indexPair⟩,
  ⟨0x0D, "elem.drop", .index⟩,
  ⟨0x0E, "table.copy", .indexPair⟩,
  ⟨0x0F, "table.grow", .index⟩,
  ⟨0x10, "table.size", .index⟩,
  ⟨0x11, "table.fill", .index⟩]

/-! ## Vector opcodes -/

def simdRows : List Row := [
  ⟨0x00, "v128.load", .memArg⟩,
  ⟨0x01, "v128.load8x8_s", .memArg⟩,
  ⟨0x02, "v128.load8x8_u", .memArg⟩,
  ⟨0x03, "v128.load16x4_s", .memArg⟩,
  ⟨0x04, "v128.load16x4_u", .memArg⟩,
  ⟨0x05, "v128.load32x2_s", .memArg⟩,
  ⟨0x06, "v128.load32x2_u", .memArg⟩,
  ⟨0x07, "v128.load8_splat", .memArg⟩,
  ⟨0x08, "v128.load16_splat", .memArg⟩,
  ⟨0x09, "v128.load32_splat", .memArg⟩,
  ⟨0x0A, "v128.load64_splat", .memArg⟩,
  ⟨0x0B, "v128.store", .memArg⟩,
  ⟨0x0C, "v128.const", .v128⟩,
  ⟨0x0D, "i8x16.shuffle", .v128⟩,
  ⟨0x0E, "i8x16.swizzle", .none⟩,
  ⟨0x0F, "i8x16.splat", .none⟩,
  ⟨0x10, "i16x8.splat", .none⟩,
  ⟨0x11, "i32x4.splat", .none⟩,
  ⟨0x12, "i64x2.splat", .none⟩,
  ⟨0x13, "f32x4.splat", .none⟩,
  ⟨0x14, "f64x2.splat", .none⟩,
  ⟨0x15, "i8x16.extract_lane_s", .lane⟩,
  ⟨0x16, "i8x16.extract_lane_u", .lane⟩,
  ⟨0x17, "i8x16.replace_lane", .lane⟩,
  ⟨0x18, "i16x8.extract_lane_s", .lane⟩,
  ⟨0x19, "i16x8.extract_lane_u", .lane⟩,
  ⟨0x1A, "i16x8.replace_lane", .lane⟩,
  ⟨0x1B, "i32x4.extract_lane", .lane⟩,
  ⟨0x1C, "i32x4.replace_lane", .lane⟩,
  ⟨0x1D, "i64x2.extract_lane", .lane⟩,
  ⟨0x1E, "i64x2.replace_lane", .lane⟩,
  ⟨0x1F, "f32x4.extract_lane", .lane⟩,
  ⟨0x20, "f32x4.replace_lane", .lane⟩,
  ⟨0x21, "f64x2.extract_lane", .lane⟩,
  ⟨0x22, "f64x2.replace_lane", .lane⟩,
  ⟨0x23, "i8x16.eq", .none⟩,
  ⟨0x24, "i8x16.ne", .none⟩,
  ⟨0x25, "i8x16.lt_s", .none⟩,
  ⟨0x26, "i8x16.lt_u", .none⟩,
  ⟨0x27, "i8x16.gt_s", .none⟩,
  ⟨0x28, "i8x16.gt_u", .none⟩,
  ⟨0x29, "i8x16.le_s", .none⟩,
  ⟨0x2A, "i8x16.le_u", .none⟩,
  ⟨0x2B, "i8x16.ge_s", .none⟩,
  ⟨0x2C, "i8x16.ge_u", .none⟩,
  ⟨0x2D, "i16x8.eq", .none⟩,
  ⟨0x2E, "i16x8.ne", .none⟩,
  ⟨0x2F, "i16x8.lt_s", .none⟩,
  ⟨0x30, "i16x8.lt_u", .none⟩,
  ⟨0x31, "i16x8.gt_s", .none⟩,
  ⟨0x32, "i16x8.gt_u", .none⟩,
  ⟨0x33, "i16x8.le_s", .none⟩,
  ⟨0x34, "i16x8.le_u", .none⟩,
  ⟨0x35, "i16x8.ge_s", .none⟩,
  ⟨0x36, "i16x8.ge_u", .none⟩,
  ⟨0x37, "i32x4.eq", .none⟩,
  ⟨0x38, "i32x4.ne", .none⟩,
  ⟨0x39, "i32x4.lt_s", .none⟩,
  ⟨0x3A, "i32x4.lt_u", .none⟩,
  ⟨0x3B, "i32x4.gt_s", .none⟩,
  ⟨0x3C, "i32x4.gt_u", .none⟩,
  ⟨0x3D, "i32x4.le_s", .none⟩,
  ⟨0x3E, "i32x4.le_u", .none⟩,
  ⟨0x3F, "i32x4.ge_s", .none⟩,
  ⟨0x40, "i32x4.ge_u", .none⟩,
  ⟨0x41, "f32x4.eq", .none⟩,
  ⟨0x42, "f32x4.ne", .none⟩,
  ⟨0x43, "f32x4.lt", .none⟩,
  ⟨0x44, "f32x4.gt", .none⟩,
  ⟨0x45, "f32x4.le", .none⟩,
  ⟨0x46, "f32x4.ge", .none⟩,
  ⟨0x47, "f64x2.eq", .none⟩,
  ⟨0x48, "f64x2.ne", .none⟩,
  ⟨0x49, "f64x2.lt", .none⟩,
  ⟨0x4A, "f64x2.gt", .none⟩,
  ⟨0x4B, "f64x2.le", .none⟩,
  ⟨0x4C, "f64x2.ge", .none⟩,
  ⟨0x4D, "v128.not", .none⟩,
  ⟨0x4E, "v128.and", .none⟩,
  ⟨0x4F, "v128.andnot", .none⟩,
  ⟨0x50, "v128.or", .none⟩,
  ⟨0x51, "v128.xor", .none⟩,
  ⟨0x52, "v128.bitselect", .none⟩,
  ⟨0x53, "v128.any_true", .none⟩,
  ⟨0x54, "v128.load8_lane", .memArgLane⟩,
  ⟨0x55, "v128.load16_lane", .memArgLane⟩,
  ⟨0x56, "v128.load32_lane", .memArgLane⟩,
  ⟨0x57, "v128.load64_lane", .memArgLane⟩,
  ⟨0x58, "v128.store8_lane", .memArgLane⟩,
  ⟨0x59, "v128.store16_lane", .memArgLane⟩,
  ⟨0x5A, "v128.store32_lane", .memArgLane⟩,
  ⟨0x5B, "v128.store64_lane", .memArgLane⟩,
  ⟨0x5C, "v128.load32_zero", .memArg⟩,
  ⟨0x5D, "v128.load64_zero", .memArg⟩,
  ⟨0x5E, "f32x4.demote_f64x2_zero", .none⟩,
  ⟨0x5F, "f64x2.promote_low_f32x4", .none⟩,
  ⟨0x60, "i8x16.abs", .none⟩,
  ⟨0x61, "i8x16.neg", .none⟩,
  ⟨0x62, "i8x16.popcnt", .none⟩,
  ⟨0x63, "i8x16.all_true", .none⟩,
  ⟨0x64, "i8x16.bitmask", .none⟩,
  ⟨0x65, "i8x16.narrow_i16x8_s", .none⟩,
  ⟨0x66, "i8x16.narrow_i16x8_u", .none⟩,
  ⟨0x67, "f32x4.ceil", .none⟩,
  ⟨0x68, "f32x4.floor", .none⟩,
  ⟨0x69, "f32x4.trunc", .none⟩,
  ⟨0x6A, "f32x4.nearest", .none⟩,
  ⟨0x6B, "i8x16.shl", .none⟩,
  ⟨0x6C, "i8x16.shr_s", .none⟩,
  ⟨0x6D, "i8x16.shr_u", .none⟩,
  ⟨0x6E, "i8x16.add", .none⟩,
  ⟨0x6F, "i8x16.add_sat_s", .none⟩,
  ⟨0x70, "i8x16.add_sat_u", .none⟩,
  ⟨0x71, "i8x16.sub", .none⟩,
  ⟨0x72, "i8x16.sub_sat_s", .none⟩,
  ⟨0x73, "i8x16.sub_sat_u", .none⟩,
  ⟨0x74, "f64x2.ceil", .none⟩,
  ⟨0x75, "f64x2.floor", .none⟩,
  ⟨0x76, "i8x16.min_s", .none⟩,
  ⟨0x77, "i8x16.min_u", .none⟩,
  ⟨0x78, "i8x16.max_s", .none⟩,
  ⟨0x79, "i8x16.max_u", .none⟩,
  ⟨0x7A, "f64x2.trunc", .none⟩,
  ⟨0x7B, "i8x16.avgr_u", .none⟩,
  ⟨0x7C, "i16x8.extadd_pairwise_i8x16_s", .none⟩,
  ⟨0x7D, "i16x8.extadd_pairwise_i8x16_u", .none⟩,
  ⟨0x7E, "i32x4.extadd_pairwise_i16x8_s", .none⟩,
  ⟨0x7F, "i32x4.extadd_pairwise_i16x8_u", .none⟩,
  ⟨0x80, "i16x8.abs", .none⟩,
  ⟨0x81, "i16x8.neg", .none⟩,
  ⟨0x82, "i16x8.q15mulr_sat_s", .none⟩,
  ⟨0x83, "i16x8.all_true", .none⟩,
  ⟨0x84, "i16x8.bitmask", .none⟩,
  ⟨0x85, "i16x8.narrow_i32x4_s", .none⟩,
  ⟨0x86, "i16x8.narrow_i32x4_u", .none⟩,
  ⟨0x87, "i16x8.extend_low_i8x16_s", .none⟩,
  ⟨0x88, "i16x8.extend_high_i8x16_s", .none⟩,
  ⟨0x89, "i16x8.extend_low_i8x16_u", .none⟩,
  ⟨0x8A, "i16x8.extend_high_i8x16_u", .none⟩,
  ⟨0x8B, "i16x8.shl", .none⟩,
  ⟨0x8C, "i16x8.shr_s", .none⟩,
  ⟨0x8D, "i16x8.shr_u", .none⟩,
  ⟨0x8E, "i16x8.add", .none⟩,
  ⟨0x8F, "i16x8.add_sat_s", .none⟩,
  ⟨0x90, "i16x8.add_sat_u", .none⟩,
  ⟨0x91, "i16x8.sub", .none⟩,
  ⟨0x92, "i16x8.sub_sat_s", .none⟩,
  ⟨0x93, "i16x8.sub_sat_u", .none⟩,
  ⟨0x94, "f64x2.nearest", .none⟩,
  ⟨0x95, "i16x8.mul", .none⟩,
  ⟨0x96, "i16x8.min_s", .none⟩,
  ⟨0x97, "i16x8.min_u", .none⟩,
  ⟨0x98, "i16x8.max_s", .none⟩,
  ⟨0x99, "i16x8.max_u", .none⟩,
  ⟨0x9B, "i16x8.avgr_u", .none⟩,
  ⟨0x9C, "i16x8.extmul_low_i8x16_s", .none⟩,
  ⟨0x9D, "i16x8.extmul_high_i8x16_s", .none⟩,
  ⟨0x9E, "i16x8.extmul_low_i8x16_u", .none⟩,
  ⟨0x9F, "i16x8.extmul_high_i8x16_u", .none⟩,
  ⟨0xA0, "i32x4.abs", .none⟩,
  ⟨0xA1, "i32x4.neg", .none⟩,
  ⟨0xA3, "i32x4.all_true", .none⟩,
  ⟨0xA4, "i32x4.bitmask", .none⟩,
  ⟨0xA7, "i32x4.extend_low_i16x8_s", .none⟩,
  ⟨0xA8, "i32x4.extend_high_i16x8_s", .none⟩,
  ⟨0xA9, "i32x4.extend_low_i16x8_u", .none⟩,
  ⟨0xAA, "i32x4.extend_high_i16x8_u", .none⟩,
  ⟨0xAB, "i32x4.shl", .none⟩,
  ⟨0xAC, "i32x4.shr_s", .none⟩,
  ⟨0xAD, "i32x4.shr_u", .none⟩,
  ⟨0xAE, "i32x4.add", .none⟩,
  ⟨0xB1, "i32x4.sub", .none⟩,
  ⟨0xB5, "i32x4.mul", .none⟩,
  ⟨0xB6, "i32x4.min_s", .none⟩,
  ⟨0xB7, "i32x4.min_u", .none⟩,
  ⟨0xB8, "i32x4.max_s", .none⟩,
  ⟨0xB9, "i32x4.max_u", .none⟩,
  ⟨0xBA, "i32x4.dot_i16x8_s", .none⟩,
  ⟨0xBC, "i32x4.extmul_low_i16x8_s", .none⟩,
  ⟨0xBD, "i32x4.extmul_high_i16x8_s", .none⟩,
  ⟨0xBE, "i32x4.extmul_low_i16x8_u", .none⟩,
  ⟨0xBF, "i32x4.extmul_high_i16x8_u", .none⟩,
  ⟨0xC0, "i64x2.abs", .none⟩,
  ⟨0xC1, "i64x2.neg", .none⟩,
  ⟨0xC3, "i64x2.all_true", .none⟩,
  ⟨0xC4, "i64x2.bitmask", .none⟩,
  ⟨0xC7, "i64x2.extend_low_i32x4_s", .none⟩,
  ⟨0xC8, "i64x2.extend_high_i32x4_s", .none⟩,
  ⟨0xC9, "i64x2.extend_low_i32x4_u", .none⟩,
  ⟨0xCA, "i64x2.extend_high_i32x4_u", .none⟩,
  ⟨0xCB, "i64x2.shl", .none⟩,
  ⟨0xCC, "i64x2.shr_s", .none⟩,
  ⟨0xCD, "i64x2.shr_u", .none⟩,
  ⟨0xCE, "i64x2.add", .none⟩,
  ⟨0xD1, "i64x2.sub", .none⟩,
  ⟨0xD5, "i64x2.mul", .none⟩,
  ⟨0xD6, "i64x2.eq", .none⟩,
  ⟨0xD7, "i64x2.ne", .none⟩,
  ⟨0xD8, "i64x2.lt_s", .none⟩,
  ⟨0xD9, "i64x2.gt_s", .none⟩,
  ⟨0xDA, "i64x2.le_s", .none⟩,
  ⟨0xDB, "i64x2.ge_s", .none⟩,
  ⟨0xDC, "i64x2.extmul_low_i32x4_s", .none⟩,
  ⟨0xDD, "i64x2.extmul_high_i32x4_s", .none⟩,
  ⟨0xDE, "i64x2.extmul_low_i32x4_u", .none⟩,
  ⟨0xDF, "i64x2.extmul_high_i32x4_u", .none⟩,
  ⟨0xE0, "f32x4.abs", .none⟩,
  ⟨0xE1, "f32x4.neg", .none⟩,
  ⟨0xE3, "f32x4.sqrt", .none⟩,
  ⟨0xE4, "f32x4.add", .none⟩,
  ⟨0xE5, "f32x4.sub", .none⟩,
  ⟨0xE6, "f32x4.mul", .none⟩,
  ⟨0xE7, "f32x4.div", .none⟩,
  ⟨0xE8, "f32x4.min", .none⟩,
  ⟨0xE9, "f32x4.max", .none⟩,
  ⟨0xEA, "f32x4.pmin", .none⟩,
  ⟨0xEB, "f32x4.pmax", .none⟩,
  ⟨0xEC, "f64x2.abs", .none⟩,
  ⟨0xED, "f64x2.neg", .none⟩,
  ⟨0xEF, "f64x2.sqrt", .none⟩,
  ⟨0xF0, "f64x2.add", .none⟩,
  ⟨0xF1, "f64x2.sub", .none⟩,
  ⟨0xF2, "f64x2.mul", .none⟩,
  ⟨0xF3, "f64x2.div", .none⟩,
  ⟨0xF4, "f64x2.min", .none⟩,
  ⟨0xF5, "f64x2.max", .none⟩,
  ⟨0xF6, "f64x2.pmin", .none⟩,
  ⟨0xF7, "f64x2.pmax", .none⟩,
  ⟨0xF8, "i32x4.trunc_sat_f32x4_s", .none⟩,
  ⟨0xF9, "i32x4.trunc_sat_f32x4_u", .none⟩,
  ⟨0xFA, "f32x4.convert_i32x4_s", .none⟩,
  ⟨0xFB, "f32x4.convert_i32x4_u", .none⟩,
  ⟨0xFC, "i32x4.trunc_sat_f64x2_s_zero", .none⟩,
  ⟨0xFD, "i32x4.trunc_sat_f64x2_u_zero", .none⟩,
  ⟨0xFE, "f64x2.convert_low_i32x4_s", .none⟩,
  ⟨0xFF, "f64x2.convert_low_i32x4_u", .none⟩,
  ⟨0x100, "i8x16.relaxed_swizzle", .none⟩,
  ⟨0x101, "i32x4.relaxed_trunc_f32x4_s", .none⟩,
  ⟨0x102, "i32x4.relaxed_trunc_f32x4_u", .none⟩,
  ⟨0x103, "i32x4.relaxed_trunc_f64x2_s_zero", .none⟩,
  ⟨0x104, "i32x4.relaxed_trunc_f64x2_u_zero", .none⟩,
  ⟨0x105, "f32x4.relaxed_madd", .none⟩,
  ⟨0x106, "f32x4.relaxed_nmadd", .none⟩,
  ⟨0x107, "f64x2.relaxed_madd", .none⟩,
  ⟨0x108, "f64x2.relaxed_nmadd", .none⟩,
  ⟨0x109, "i8x16.relaxed_laneselect", .none⟩,
  ⟨0x10A, "i16x8.relaxed_laneselect", .none⟩,
  ⟨0x10B, "i32x4.relaxed_laneselect", .none⟩,
  ⟨0x10C, "i64x2.relaxed_laneselect", .none⟩,
  ⟨0x10D, "f32x4.relaxed_min", .none⟩,
  ⟨0x10E, "f32x4.relaxed_max", .none⟩,
  ⟨0x10F, "f64x2.relaxed_min", .none⟩,
  ⟨0x110, "f64x2.relaxed_max", .none⟩,
  ⟨0x111, "i16x8.relaxed_q15mulr_s", .none⟩,
  ⟨0x112, "i16x8.relaxed_dot_i8x16_i7x16_s", .none⟩,
  ⟨0x113, "i32x4.relaxed_dot_i8x16_i7x16_add_s", .none⟩]

/-! ## Shared-memory opcodes -/

def atomicRows : List Row := [
  ⟨0x00, "memory.atomic.notify", .memArg⟩,
  ⟨0x01, "memory.atomic.wait32", .memArg⟩,
  ⟨0x02, "memory.atomic.wait64", .memArg⟩,
  ⟨0x03, "atomic.fence", .reserved⟩,
  ⟨0x10, "i32.atomic.load", .memArg⟩,
  ⟨0x11, "i64.atomic.load", .memArg⟩,
  ⟨0x12, "i32.atomic.load8_u", .memArg⟩,
  ⟨0x13, "i32.atomic.load16_u", .memArg⟩,
  ⟨0x14, "i64.atomic.load8_u", .memArg⟩,
  ⟨0x15, "i64.atomic.load16_u", .memArg⟩,
  ⟨0x16, "i64.atomic.load32_u", .memArg⟩,
  ⟨0x17, "i32.atomic.store", .memArg⟩,
  ⟨0x18, "i64.atomic.store", .memArg⟩,
  ⟨0x19, "i32.atomic.store8", .memArg⟩,
  ⟨0x1A, "i32.atomic.store16", .memArg⟩,
  ⟨0x1B, "i64.atomic.store8", .memArg⟩,
  ⟨0x1C, "i64.atomic.store16", .memArg⟩,
  ⟨0x1D, "i64.atomic.store32", .memArg⟩,
  ⟨0x1E, "i32.atomic.rmw.add", .memArg⟩,
  ⟨0x1F, "i64.atomic.rmw.add", .memArg⟩,
  ⟨0x20, "i32.atomic.rmw8.add_u", .memArg⟩,
  ⟨0x21, "i32.atomic.rmw16.add_u", .memArg⟩,
  ⟨0x22, "i64.atomic.rmw8.add_u", .memArg⟩,
  ⟨0x23, "i64.atomic.rmw16.add_u", .memArg⟩,
  ⟨0x24, "i64.atomic.rmw32.add_u", .memArg⟩,
  ⟨0x25, "i32.atomic.rmw.sub", .memArg⟩,
  ⟨0x26, "i64.atomic.rmw.sub", .memArg⟩,
  ⟨0x27, "i32.atomic.rmw8.sub_u", .memArg⟩,
  ⟨0x28, "i32.atomic.rmw16.sub_u", .memArg⟩,
  ⟨0x29, "i64.atomic.rmw8.sub_u", .memArg⟩,
  ⟨0x2A, "i64.atomic.rmw16.sub_u", .memArg⟩,
  ⟨0x2B, "i64.atomic.rmw32.sub_u", .memArg⟩,
  ⟨0x2C, "i32.atomic.rmw.and", .memArg⟩,
  ⟨0x2D, "i64.atomic.rmw.and", .memArg⟩,
  ⟨0x2E, "i32.atomic.rmw8.and_u", .memArg⟩,
  ⟨0x2F, "i32.atomic.rmw16.and_u", .memArg⟩,
  ⟨0x30, "i64.atomic.rmw8.and_u", .memArg⟩,
  ⟨0x31, "i64.atomic.rmw16.and_u", .memArg⟩,
  ⟨0x32, "i64.atomic.rmw32.and_u", .memArg⟩,
  ⟨0x33, "i32.atomic.rmw.or", .memArg⟩,
  ⟨0x34, "i64.atomic.rmw.or", .memArg⟩,
  ⟨0x35, "i32.atomic.rmw8.or_u", .memArg⟩,
  ⟨0x36, "i32.atomic.rmw16.or_u", .memArg⟩,
  ⟨0x37, "i64.atomic.rmw8.or_u", .memArg⟩,
  ⟨0x38, "i64.atomic.rmw16.or_u", .memArg⟩,
  ⟨0x39, "i64.atomic.rmw32.or_u", .memArg⟩,
  ⟨0x3A, "i32.atomic.rmw.xor", .memArg⟩,
  ⟨0x3B, "i64.atomic.rmw.xor", .memArg⟩,
  ⟨0x3C, "i32.atomic.rmw8.xor_u", .memArg⟩,
  ⟨0x3D, "i32.atomic.rmw16.xor_u", .memArg⟩,
  ⟨0x3E, "i64.atomic.rmw8.xor_u", .memArg⟩,
  ⟨0x3F, "i64.atomic.rmw16.xor_u", .memArg⟩,
  ⟨0x40, "i64.atomic.rmw32.xor_u", .memArg⟩,
  ⟨0x41, "i32.atomic.rmw.xchg", .memArg⟩,
  ⟨0x42, "i64.atomic.rmw.xchg", .memArg⟩,
  ⟨0x43, "i32.atomic.rmw8.xchg_u", .memArg⟩,
  ⟨0x44, "i32.atomic.rmw16.xchg_u", .memArg⟩,
  ⟨0x45, "i64.atomic.rmw8.xchg_u", .memArg⟩,
  ⟨0x46, "i64.atomic.rmw16.xchg_u", .memArg⟩,
  ⟨0x47, "i64.atomic.rmw32.xchg_u", .memArg⟩,
  ⟨0x48, "i32.atomic.rmw.cmpxchg", .memArg⟩,
  ⟨0x49, "i64.atomic.rmw.cmpxchg", .memArg⟩,
  ⟨0x4A, "i32.atomic.rmw8.cmpxchg_u", .memArg⟩,
  ⟨0x4B, "i32.atomic.rmw16.cmpxchg_u", .memArg⟩,
  ⟨0x4C, "i64.atomic.rmw8.cmpxchg_u", .memArg⟩,
  ⟨0x4D, "i64.atomic.rmw16.cmpxchg_u", .memArg⟩,
  ⟨0x4E, "i64.atomic.rmw32.cmpxchg_u", .memArg⟩]

end Opcode

end WasmBinary
