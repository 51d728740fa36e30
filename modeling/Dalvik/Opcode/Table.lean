import Dalvik.Opcode.Basic

/-!
# The table of opcodes

Every opcode that occurs in code. A value that changed its meaning between API
levels occurs once for each meaning, with API levels that do not overlap. Each
row lists the name, the value, the kind of the reference, the format, the
traits, the kind of a second reference, and the first and the last API level.
-/

namespace Dalvik.Opcode

open OpcodeTrait (canThrow odexOnly canContinue setsResult setsRegister setsWideRegister quickField
  volatileField staticField jumbo initializesReference)

/-- All opcodes. -/
def table : List Opcode := [
  ⟨"nop", 0x00, .none, .f10x, [canContinue], none, none, none⟩,
  ⟨"move", 0x01, .none, .f12x, [canContinue, setsRegister], none, none, none⟩,
  ⟨"move/from16", 0x02, .none, .f22x, [canContinue, setsRegister], none, none, none⟩,
  ⟨"move/16", 0x03, .none, .f32x, [canContinue, setsRegister], none, none, none⟩,
  ⟨"move-wide", 0x04, .none, .f12x, [canContinue, setsRegister, setsWideRegister], none, none, none⟩,
  ⟨"move-wide/from16", 0x05, .none, .f22x,
    [canContinue, setsRegister, setsWideRegister], none, none, none⟩,
  ⟨"move-wide/16", 0x06, .none, .f32x, [canContinue, setsRegister, setsWideRegister], none, none, none⟩,
  ⟨"move-object", 0x07, .none, .f12x, [canContinue, setsRegister], none, none, none⟩,
  ⟨"move-object/from16", 0x08, .none, .f22x, [canContinue, setsRegister], none, none, none⟩,
  ⟨"move-object/16", 0x09, .none, .f32x, [canContinue, setsRegister], none, none, none⟩,
  ⟨"move-result", 0x0a, .none, .f11x, [canContinue, setsRegister], none, none, none⟩,
  ⟨"move-result-wide", 0x0b, .none, .f11x,
    [canContinue, setsRegister, setsWideRegister], none, none, none⟩,
  ⟨"move-result-object", 0x0c, .none, .f11x, [canContinue, setsRegister], none, none, none⟩,
  ⟨"move-exception", 0x0d, .none, .f11x, [canContinue, setsRegister], none, none, none⟩,
  ⟨"return-void", 0x0e, .none, .f10x, [], none, none, none⟩,
  ⟨"return", 0x0f, .none, .f11x, [], none, none, none⟩,
  ⟨"return-wide", 0x10, .none, .f11x, [], none, none, none⟩,
  ⟨"return-object", 0x11, .none, .f11x, [], none, none, none⟩,
  ⟨"const/4", 0x12, .none, .f11n, [canContinue, setsRegister], none, none, none⟩,
  ⟨"const/16", 0x13, .none, .f21s, [canContinue, setsRegister], none, none, none⟩,
  ⟨"const", 0x14, .none, .f31i, [canContinue, setsRegister], none, none, none⟩,
  ⟨"const/high16", 0x15, .none, .f21ih, [canContinue, setsRegister], none, none, none⟩,
  ⟨"const-wide/16", 0x16, .none, .f21s, [canContinue, setsRegister, setsWideRegister], none, none, none⟩,
  ⟨"const-wide/32", 0x17, .none, .f31i, [canContinue, setsRegister, setsWideRegister], none, none, none⟩,
  ⟨"const-wide", 0x18, .none, .f51l, [canContinue, setsRegister, setsWideRegister], none, none, none⟩,
  ⟨"const-wide/high16", 0x19, .none, .f21lh,
    [canContinue, setsRegister, setsWideRegister], none, none, none⟩,
  ⟨"const-string", 0x1a, .string, .f21c, [canThrow, canContinue, setsRegister], none, none, none⟩,
  ⟨"const-string/jumbo", 0x1b, .string, .f31c,
    [canThrow, canContinue, setsRegister, jumbo], none, none, none⟩,
  ⟨"const-class", 0x1c, .type, .f21c, [canThrow, canContinue, setsRegister], none, none, none⟩,
  ⟨"monitor-enter", 0x1d, .none, .f11x, [canThrow, canContinue], none, none, none⟩,
  ⟨"monitor-exit", 0x1e, .none, .f11x, [canThrow, canContinue], none, none, none⟩,
  ⟨"check-cast", 0x1f, .type, .f21c, [canThrow, canContinue, setsRegister], none, none, none⟩,
  ⟨"instance-of", 0x20, .type, .f22c, [canThrow, canContinue, setsRegister], none, none, none⟩,
  ⟨"array-length", 0x21, .none, .f12x, [canThrow, canContinue, setsRegister], none, none, none⟩,
  ⟨"new-instance", 0x22, .type, .f21c, [canThrow, canContinue, setsRegister], none, none, none⟩,
  ⟨"new-array", 0x23, .type, .f22c, [canThrow, canContinue, setsRegister], none, none, none⟩,
  ⟨"filled-new-array", 0x24, .type, .f35c, [canThrow, canContinue, setsResult], none, none, none⟩,
  ⟨"filled-new-array/range", 0x25, .type, .f3rc, [canThrow, canContinue, setsResult], none, none, none⟩,
  ⟨"fill-array-data", 0x26, .none, .f31t, [canContinue], none, none, none⟩,
  ⟨"throw", 0x27, .none, .f11x, [canThrow], none, none, none⟩,
  ⟨"goto", 0x28, .none, .f10t, [], none, none, none⟩,
  ⟨"goto/16", 0x29, .none, .f20t, [], none, none, none⟩,
  ⟨"goto/32", 0x2a, .none, .f30t, [], none, none, none⟩,
  ⟨"packed-switch", 0x2b, .none, .f31t, [canContinue], none, none, none⟩,
  ⟨"sparse-switch", 0x2c, .none, .f31t, [canContinue], none, none, none⟩,
  ⟨"cmpl-float", 0x2d, .none, .f23x, [canContinue, setsRegister], none, none, none⟩,
  ⟨"cmpg-float", 0x2e, .none, .f23x, [canContinue, setsRegister], none, none, none⟩,
  ⟨"cmpl-double", 0x2f, .none, .f23x, [canContinue, setsRegister], none, none, none⟩,
  ⟨"cmpg-double", 0x30, .none, .f23x, [canContinue, setsRegister], none, none, none⟩,
  ⟨"cmp-long", 0x31, .none, .f23x, [canContinue, setsRegister], none, none, none⟩,
  ⟨"if-eq", 0x32, .none, .f22t, [canContinue], none, none, none⟩,
  ⟨"if-ne", 0x33, .none, .f22t, [canContinue], none, none, none⟩,
  ⟨"if-lt", 0x34, .none, .f22t, [canContinue], none, none, none⟩,
  ⟨"if-ge", 0x35, .none, .f22t, [canContinue], none, none, none⟩,
  ⟨"if-gt", 0x36, .none, .f22t, [canContinue], none, none, none⟩,
  ⟨"if-le", 0x37, .none, .f22t, [canContinue], none, none, none⟩,
  ⟨"if-eqz", 0x38, .none, .f21t, [canContinue], none, none, none⟩,
  ⟨"if-nez", 0x39, .none, .f21t, [canContinue], none, none, none⟩,
  ⟨"if-ltz", 0x3a, .none, .f21t, [canContinue], none, none, none⟩,
  ⟨"if-gez", 0x3b, .none, .f21t, [canContinue], none, none, none⟩,
  ⟨"if-gtz", 0x3c, .none, .f21t, [canContinue], none, none, none⟩,
  ⟨"if-lez", 0x3d, .none, .f21t, [canContinue], none, none, none⟩,
  ⟨"aget", 0x44, .none, .f23x, [canThrow, canContinue, setsRegister], none, none, none⟩,
  ⟨"aget-wide", 0x45, .none, .f23x,
    [canThrow, canContinue, setsRegister, setsWideRegister], none, none, none⟩,
  ⟨"aget-object", 0x46, .none, .f23x, [canThrow, canContinue, setsRegister], none, none, none⟩,
  ⟨"aget-boolean", 0x47, .none, .f23x, [canThrow, canContinue, setsRegister], none, none, none⟩,
  ⟨"aget-byte", 0x48, .none, .f23x, [canThrow, canContinue, setsRegister], none, none, none⟩,
  ⟨"aget-char", 0x49, .none, .f23x, [canThrow, canContinue, setsRegister], none, none, none⟩,
  ⟨"aget-short", 0x4a, .none, .f23x, [canThrow, canContinue, setsRegister], none, none, none⟩,
  ⟨"aput", 0x4b, .none, .f23x, [canThrow, canContinue], none, none, none⟩,
  ⟨"aput-wide", 0x4c, .none, .f23x, [canThrow, canContinue], none, none, none⟩,
  ⟨"aput-object", 0x4d, .none, .f23x, [canThrow, canContinue], none, none, none⟩,
  ⟨"aput-boolean", 0x4e, .none, .f23x, [canThrow, canContinue], none, none, none⟩,
  ⟨"aput-byte", 0x4f, .none, .f23x, [canThrow, canContinue], none, none, none⟩,
  ⟨"aput-char", 0x50, .none, .f23x, [canThrow, canContinue], none, none, none⟩,
  ⟨"aput-short", 0x51, .none, .f23x, [canThrow, canContinue], none, none, none⟩,
  ⟨"iget", 0x52, .field, .f22c, [canThrow, canContinue, setsRegister], none, none, none⟩,
  ⟨"iget-wide", 0x53, .field, .f22c,
    [canThrow, canContinue, setsRegister, setsWideRegister], none, none, none⟩,
  ⟨"iget-object", 0x54, .field, .f22c, [canThrow, canContinue, setsRegister], none, none, none⟩,
  ⟨"iget-boolean", 0x55, .field, .f22c, [canThrow, canContinue, setsRegister], none, none, none⟩,
  ⟨"iget-byte", 0x56, .field, .f22c, [canThrow, canContinue, setsRegister], none, none, none⟩,
  ⟨"iget-char", 0x57, .field, .f22c, [canThrow, canContinue, setsRegister], none, none, none⟩,
  ⟨"iget-short", 0x58, .field, .f22c, [canThrow, canContinue, setsRegister], none, none, none⟩,
  ⟨"iput", 0x59, .field, .f22c, [canThrow, canContinue], none, none, none⟩,
  ⟨"iput-wide", 0x5a, .field, .f22c, [canThrow, canContinue], none, none, none⟩,
  ⟨"iput-object", 0x5b, .field, .f22c, [canThrow, canContinue], none, none, none⟩,
  ⟨"iput-boolean", 0x5c, .field, .f22c, [canThrow, canContinue], none, none, none⟩,
  ⟨"iput-byte", 0x5d, .field, .f22c, [canThrow, canContinue], none, none, none⟩,
  ⟨"iput-char", 0x5e, .field, .f22c, [canThrow, canContinue], none, none, none⟩,
  ⟨"iput-short", 0x5f, .field, .f22c, [canThrow, canContinue], none, none, none⟩,
  ⟨"sget", 0x60, .field, .f21c, [canThrow, canContinue, setsRegister, staticField], none, none, none⟩,
  ⟨"sget-wide", 0x61, .field, .f21c,
    [canThrow, canContinue, setsRegister, setsWideRegister, staticField], none, none, none⟩,
  ⟨"sget-object", 0x62, .field, .f21c,
    [canThrow, canContinue, setsRegister, staticField], none, none, none⟩,
  ⟨"sget-boolean", 0x63, .field, .f21c,
    [canThrow, canContinue, setsRegister, staticField], none, none, none⟩,
  ⟨"sget-byte", 0x64, .field, .f21c,
    [canThrow, canContinue, setsRegister, staticField], none, none, none⟩,
  ⟨"sget-char", 0x65, .field, .f21c,
    [canThrow, canContinue, setsRegister, staticField], none, none, none⟩,
  ⟨"sget-short", 0x66, .field, .f21c,
    [canThrow, canContinue, setsRegister, staticField], none, none, none⟩,
  ⟨"sput", 0x67, .field, .f21c, [canThrow, canContinue, staticField], none, none, none⟩,
  ⟨"sput-wide", 0x68, .field, .f21c, [canThrow, canContinue, staticField], none, none, none⟩,
  ⟨"sput-object", 0x69, .field, .f21c, [canThrow, canContinue, staticField], none, none, none⟩,
  ⟨"sput-boolean", 0x6a, .field, .f21c, [canThrow, canContinue, staticField], none, none, none⟩,
  ⟨"sput-byte", 0x6b, .field, .f21c, [canThrow, canContinue, staticField], none, none, none⟩,
  ⟨"sput-char", 0x6c, .field, .f21c, [canThrow, canContinue, staticField], none, none, none⟩,
  ⟨"sput-short", 0x6d, .field, .f21c, [canThrow, canContinue, staticField], none, none, none⟩,
  ⟨"invoke-virtual", 0x6e, .method, .f35c, [canThrow, canContinue, setsResult], none, none, none⟩,
  ⟨"invoke-super", 0x6f, .method, .f35c, [canThrow, canContinue, setsResult], none, none, none⟩,
  ⟨"invoke-direct", 0x70, .method, .f35c,
    [canThrow, canContinue, setsResult, initializesReference], none, none, none⟩,
  ⟨"invoke-static", 0x71, .method, .f35c, [canThrow, canContinue, setsResult], none, none, none⟩,
  ⟨"invoke-interface", 0x72, .method, .f35c, [canThrow, canContinue, setsResult], none, none, none⟩,
  ⟨"invoke-virtual/range", 0x74, .method, .f3rc, [canThrow, canContinue, setsResult], none, none, none⟩,
  ⟨"invoke-super/range", 0x75, .method, .f3rc, [canThrow, canContinue, setsResult], none, none, none⟩,
  ⟨"invoke-direct/range", 0x76, .method, .f3rc,
    [canThrow, canContinue, setsResult, initializesReference], none, none, none⟩,
  ⟨"invoke-static/range", 0x77, .method, .f3rc, [canThrow, canContinue, setsResult], none, none, none⟩,
  ⟨"invoke-interface/range", 0x78, .method, .f3rc,
    [canThrow, canContinue, setsResult], none, none, none⟩,
  ⟨"neg-int", 0x7b, .none, .f12x, [canContinue, setsRegister], none, none, none⟩,
  ⟨"not-int", 0x7c, .none, .f12x, [canContinue, setsRegister], none, none, none⟩,
  ⟨"neg-long", 0x7d, .none, .f12x, [canContinue, setsRegister, setsWideRegister], none, none, none⟩,
  ⟨"not-long", 0x7e, .none, .f12x, [canContinue, setsRegister, setsWideRegister], none, none, none⟩,
  ⟨"neg-float", 0x7f, .none, .f12x, [canContinue, setsRegister], none, none, none⟩,
  ⟨"neg-double", 0x80, .none, .f12x, [canContinue, setsRegister, setsWideRegister], none, none, none⟩,
  ⟨"int-to-long", 0x81, .none, .f12x, [canContinue, setsRegister, setsWideRegister], none, none, none⟩,
  ⟨"int-to-float", 0x82, .none, .f12x, [canContinue, setsRegister], none, none, none⟩,
  ⟨"int-to-double", 0x83, .none, .f12x, [canContinue, setsRegister, setsWideRegister], none, none, none⟩,
  ⟨"long-to-int", 0x84, .none, .f12x, [canContinue, setsRegister], none, none, none⟩,
  ⟨"long-to-float", 0x85, .none, .f12x, [canContinue, setsRegister], none, none, none⟩,
  ⟨"long-to-double", 0x86, .none, .f12x,
    [canContinue, setsRegister, setsWideRegister], none, none, none⟩,
  ⟨"float-to-int", 0x87, .none, .f12x, [canContinue, setsRegister], none, none, none⟩,
  ⟨"float-to-long", 0x88, .none, .f12x, [canContinue, setsRegister, setsWideRegister], none, none, none⟩,
  ⟨"float-to-double", 0x89, .none, .f12x,
    [canContinue, setsRegister, setsWideRegister], none, none, none⟩,
  ⟨"double-to-int", 0x8a, .none, .f12x, [canContinue, setsRegister], none, none, none⟩,
  ⟨"double-to-long", 0x8b, .none, .f12x,
    [canContinue, setsRegister, setsWideRegister], none, none, none⟩,
  ⟨"double-to-float", 0x8c, .none, .f12x, [canContinue, setsRegister], none, none, none⟩,
  ⟨"int-to-byte", 0x8d, .none, .f12x, [canContinue, setsRegister], none, none, none⟩,
  ⟨"int-to-char", 0x8e, .none, .f12x, [canContinue, setsRegister], none, none, none⟩,
  ⟨"int-to-short", 0x8f, .none, .f12x, [canContinue, setsRegister], none, none, none⟩,
  ⟨"add-int", 0x90, .none, .f23x, [canContinue, setsRegister], none, none, none⟩,
  ⟨"sub-int", 0x91, .none, .f23x, [canContinue, setsRegister], none, none, none⟩,
  ⟨"mul-int", 0x92, .none, .f23x, [canContinue, setsRegister], none, none, none⟩,
  ⟨"div-int", 0x93, .none, .f23x, [canThrow, canContinue, setsRegister], none, none, none⟩,
  ⟨"rem-int", 0x94, .none, .f23x, [canThrow, canContinue, setsRegister], none, none, none⟩,
  ⟨"and-int", 0x95, .none, .f23x, [canContinue, setsRegister], none, none, none⟩,
  ⟨"or-int", 0x96, .none, .f23x, [canContinue, setsRegister], none, none, none⟩,
  ⟨"xor-int", 0x97, .none, .f23x, [canContinue, setsRegister], none, none, none⟩,
  ⟨"shl-int", 0x98, .none, .f23x, [canContinue, setsRegister], none, none, none⟩,
  ⟨"shr-int", 0x99, .none, .f23x, [canContinue, setsRegister], none, none, none⟩,
  ⟨"ushr-int", 0x9a, .none, .f23x, [canContinue, setsRegister], none, none, none⟩,
  ⟨"add-long", 0x9b, .none, .f23x, [canContinue, setsRegister, setsWideRegister], none, none, none⟩,
  ⟨"sub-long", 0x9c, .none, .f23x, [canContinue, setsRegister, setsWideRegister], none, none, none⟩,
  ⟨"mul-long", 0x9d, .none, .f23x, [canContinue, setsRegister, setsWideRegister], none, none, none⟩,
  ⟨"div-long", 0x9e, .none, .f23x,
    [canThrow, canContinue, setsRegister, setsWideRegister], none, none, none⟩,
  ⟨"rem-long", 0x9f, .none, .f23x,
    [canThrow, canContinue, setsRegister, setsWideRegister], none, none, none⟩,
  ⟨"and-long", 0xa0, .none, .f23x, [canContinue, setsRegister, setsWideRegister], none, none, none⟩,
  ⟨"or-long", 0xa1, .none, .f23x, [canContinue, setsRegister, setsWideRegister], none, none, none⟩,
  ⟨"xor-long", 0xa2, .none, .f23x, [canContinue, setsRegister, setsWideRegister], none, none, none⟩,
  ⟨"shl-long", 0xa3, .none, .f23x, [canContinue, setsRegister, setsWideRegister], none, none, none⟩,
  ⟨"shr-long", 0xa4, .none, .f23x, [canContinue, setsRegister, setsWideRegister], none, none, none⟩,
  ⟨"ushr-long", 0xa5, .none, .f23x, [canContinue, setsRegister, setsWideRegister], none, none, none⟩,
  ⟨"add-float", 0xa6, .none, .f23x, [canContinue, setsRegister], none, none, none⟩,
  ⟨"sub-float", 0xa7, .none, .f23x, [canContinue, setsRegister], none, none, none⟩,
  ⟨"mul-float", 0xa8, .none, .f23x, [canContinue, setsRegister], none, none, none⟩,
  ⟨"div-float", 0xa9, .none, .f23x, [canContinue, setsRegister], none, none, none⟩,
  ⟨"rem-float", 0xaa, .none, .f23x, [canContinue, setsRegister], none, none, none⟩,
  ⟨"add-double", 0xab, .none, .f23x, [canContinue, setsRegister, setsWideRegister], none, none, none⟩,
  ⟨"sub-double", 0xac, .none, .f23x, [canContinue, setsRegister, setsWideRegister], none, none, none⟩,
  ⟨"mul-double", 0xad, .none, .f23x, [canContinue, setsRegister, setsWideRegister], none, none, none⟩,
  ⟨"div-double", 0xae, .none, .f23x, [canContinue, setsRegister, setsWideRegister], none, none, none⟩,
  ⟨"rem-double", 0xaf, .none, .f23x, [canContinue, setsRegister, setsWideRegister], none, none, none⟩,
  ⟨"add-int/2addr", 0xb0, .none, .f12x, [canContinue, setsRegister], none, none, none⟩,
  ⟨"sub-int/2addr", 0xb1, .none, .f12x, [canContinue, setsRegister], none, none, none⟩,
  ⟨"mul-int/2addr", 0xb2, .none, .f12x, [canContinue, setsRegister], none, none, none⟩,
  ⟨"div-int/2addr", 0xb3, .none, .f12x, [canThrow, canContinue, setsRegister], none, none, none⟩,
  ⟨"rem-int/2addr", 0xb4, .none, .f12x, [canThrow, canContinue, setsRegister], none, none, none⟩,
  ⟨"and-int/2addr", 0xb5, .none, .f12x, [canContinue, setsRegister], none, none, none⟩,
  ⟨"or-int/2addr", 0xb6, .none, .f12x, [canContinue, setsRegister], none, none, none⟩,
  ⟨"xor-int/2addr", 0xb7, .none, .f12x, [canContinue, setsRegister], none, none, none⟩,
  ⟨"shl-int/2addr", 0xb8, .none, .f12x, [canContinue, setsRegister], none, none, none⟩,
  ⟨"shr-int/2addr", 0xb9, .none, .f12x, [canContinue, setsRegister], none, none, none⟩,
  ⟨"ushr-int/2addr", 0xba, .none, .f12x, [canContinue, setsRegister], none, none, none⟩,
  ⟨"add-long/2addr", 0xbb, .none, .f12x,
    [canContinue, setsRegister, setsWideRegister], none, none, none⟩,
  ⟨"sub-long/2addr", 0xbc, .none, .f12x,
    [canContinue, setsRegister, setsWideRegister], none, none, none⟩,
  ⟨"mul-long/2addr", 0xbd, .none, .f12x,
    [canContinue, setsRegister, setsWideRegister], none, none, none⟩,
  ⟨"div-long/2addr", 0xbe, .none, .f12x,
    [canThrow, canContinue, setsRegister, setsWideRegister], none, none, none⟩,
  ⟨"rem-long/2addr", 0xbf, .none, .f12x,
    [canThrow, canContinue, setsRegister, setsWideRegister], none, none, none⟩,
  ⟨"and-long/2addr", 0xc0, .none, .f12x,
    [canContinue, setsRegister, setsWideRegister], none, none, none⟩,
  ⟨"or-long/2addr", 0xc1, .none, .f12x, [canContinue, setsRegister, setsWideRegister], none, none, none⟩,
  ⟨"xor-long/2addr", 0xc2, .none, .f12x,
    [canContinue, setsRegister, setsWideRegister], none, none, none⟩,
  ⟨"shl-long/2addr", 0xc3, .none, .f12x,
    [canContinue, setsRegister, setsWideRegister], none, none, none⟩,
  ⟨"shr-long/2addr", 0xc4, .none, .f12x,
    [canContinue, setsRegister, setsWideRegister], none, none, none⟩,
  ⟨"ushr-long/2addr", 0xc5, .none, .f12x,
    [canContinue, setsRegister, setsWideRegister], none, none, none⟩,
  ⟨"add-float/2addr", 0xc6, .none, .f12x, [canContinue, setsRegister], none, none, none⟩,
  ⟨"sub-float/2addr", 0xc7, .none, .f12x, [canContinue, setsRegister], none, none, none⟩,
  ⟨"mul-float/2addr", 0xc8, .none, .f12x, [canContinue, setsRegister], none, none, none⟩,
  ⟨"div-float/2addr", 0xc9, .none, .f12x, [canContinue, setsRegister], none, none, none⟩,
  ⟨"rem-float/2addr", 0xca, .none, .f12x, [canContinue, setsRegister], none, none, none⟩,
  ⟨"add-double/2addr", 0xcb, .none, .f12x,
    [canContinue, setsRegister, setsWideRegister], none, none, none⟩,
  ⟨"sub-double/2addr", 0xcc, .none, .f12x,
    [canContinue, setsRegister, setsWideRegister], none, none, none⟩,
  ⟨"mul-double/2addr", 0xcd, .none, .f12x,
    [canContinue, setsRegister, setsWideRegister], none, none, none⟩,
  ⟨"div-double/2addr", 0xce, .none, .f12x,
    [canContinue, setsRegister, setsWideRegister], none, none, none⟩,
  ⟨"rem-double/2addr", 0xcf, .none, .f12x,
    [canContinue, setsRegister, setsWideRegister], none, none, none⟩,
  ⟨"add-int/lit16", 0xd0, .none, .f22s, [canContinue, setsRegister], none, none, none⟩,
  ⟨"rsub-int", 0xd1, .none, .f22s, [canContinue, setsRegister], none, none, none⟩,
  ⟨"mul-int/lit16", 0xd2, .none, .f22s, [canContinue, setsRegister], none, none, none⟩,
  ⟨"div-int/lit16", 0xd3, .none, .f22s, [canThrow, canContinue, setsRegister], none, none, none⟩,
  ⟨"rem-int/lit16", 0xd4, .none, .f22s, [canThrow, canContinue, setsRegister], none, none, none⟩,
  ⟨"and-int/lit16", 0xd5, .none, .f22s, [canContinue, setsRegister], none, none, none⟩,
  ⟨"or-int/lit16", 0xd6, .none, .f22s, [canContinue, setsRegister], none, none, none⟩,
  ⟨"xor-int/lit16", 0xd7, .none, .f22s, [canContinue, setsRegister], none, none, none⟩,
  ⟨"add-int/lit8", 0xd8, .none, .f22b, [canContinue, setsRegister], none, none, none⟩,
  ⟨"rsub-int/lit8", 0xd9, .none, .f22b, [canContinue, setsRegister], none, none, none⟩,
  ⟨"mul-int/lit8", 0xda, .none, .f22b, [canContinue, setsRegister], none, none, none⟩,
  ⟨"div-int/lit8", 0xdb, .none, .f22b, [canThrow, canContinue, setsRegister], none, none, none⟩,
  ⟨"rem-int/lit8", 0xdc, .none, .f22b, [canThrow, canContinue, setsRegister], none, none, none⟩,
  ⟨"and-int/lit8", 0xdd, .none, .f22b, [canContinue, setsRegister], none, none, none⟩,
  ⟨"or-int/lit8", 0xde, .none, .f22b, [canContinue, setsRegister], none, none, none⟩,
  ⟨"xor-int/lit8", 0xdf, .none, .f22b, [canContinue, setsRegister], none, none, none⟩,
  ⟨"shl-int/lit8", 0xe0, .none, .f22b, [canContinue, setsRegister], none, none, none⟩,
  ⟨"shr-int/lit8", 0xe1, .none, .f22b, [canContinue, setsRegister], none, none, none⟩,
  ⟨"ushr-int/lit8", 0xe2, .none, .f22b, [canContinue, setsRegister], none, none, none⟩,
  ⟨"iget-volatile", 0xe3, .field, .f22c,
    [canThrow, canContinue, setsRegister, odexOnly, volatileField], none, none, some 20⟩,
  ⟨"iput-volatile", 0xe4, .field, .f22c,
    [canThrow, canContinue, odexOnly, volatileField], none, none, some 20⟩,
  ⟨"sget-volatile", 0xe5, .field, .f21c,
    [canThrow, canContinue, setsRegister, odexOnly, volatileField, staticField], none, none, some 20⟩,
  ⟨"sput-volatile", 0xe6, .field, .f21c,
    [canThrow, canContinue, odexOnly, volatileField, staticField], none, none, some 20⟩,
  ⟨"iget-object-volatile", 0xe7, .field, .f22c,
    [canThrow, canContinue, setsRegister, odexOnly, volatileField], none, none, some 20⟩,
  ⟨"iget-wide-volatile", 0xe8, .field, .f22c,
    [canThrow, canContinue, setsRegister, setsWideRegister, odexOnly, volatileField], none, none, some 20⟩,
  ⟨"iput-wide-volatile", 0xe9, .field, .f22c,
    [canThrow, canContinue, odexOnly, volatileField], none, none, some 20⟩,
  ⟨"sget-wide-volatile", 0xea, .field, .f21c,
    [canThrow, canContinue, setsRegister, setsWideRegister, odexOnly, volatileField, staticField], none, none, some 20⟩,
  ⟨"sput-wide-volatile", 0xeb, .field, .f21c,
    [canThrow, canContinue, odexOnly, volatileField, staticField], none, none, some 20⟩,
  ⟨"throw-verification-error", 0xed, .none, .f20bc, [canThrow, odexOnly], none, none, some 20⟩,
  ⟨"execute-inline", 0xee, .none, .f35mi,
    [canThrow, canContinue, setsResult, odexOnly], none, none, some 20⟩,
  ⟨"execute-inline/range", 0xef, .none, .f3rmi,
    [canThrow, canContinue, setsResult, odexOnly], none, none, some 20⟩,
  ⟨"invoke-object-init/range", 0xf0, .method, .f3rc,
    [canThrow, canContinue, setsResult, odexOnly, initializesReference], none, none, some 20⟩,
  ⟨"iget-quick", 0xf2, .none, .f22cs,
    [canThrow, canContinue, setsRegister, odexOnly, quickField], none, none, none⟩,
  ⟨"iget-wide-quick", 0xf3, .none, .f22cs,
    [canThrow, canContinue, setsRegister, setsWideRegister, odexOnly, quickField], none, none, none⟩,
  ⟨"iget-object-quick", 0xf4, .none, .f22cs,
    [canThrow, canContinue, setsRegister, odexOnly, quickField], none, none, none⟩,
  ⟨"iput-quick", 0xf5, .none, .f22cs, [canThrow, canContinue, odexOnly, quickField], none, none, none⟩,
  ⟨"iput-wide-quick", 0xf6, .none, .f22cs,
    [canThrow, canContinue, odexOnly, quickField], none, none, none⟩,
  ⟨"iput-object-quick", 0xf7, .none, .f22cs,
    [canThrow, canContinue, odexOnly, quickField], none, none, none⟩,
  ⟨"invoke-virtual-quick", 0xf8, .none, .f35ms,
    [canThrow, canContinue, setsResult, odexOnly], none, none, none⟩,
  ⟨"invoke-virtual-quick/range", 0xf9, .none, .f3rms,
    [canThrow, canContinue, setsResult, odexOnly], none, none, none⟩,
  ⟨"invoke-super-quick", 0xfa, .none, .f35ms,
    [canThrow, canContinue, setsResult, odexOnly], none, none, some 25⟩,
  ⟨"invoke-super-quick/range", 0xfb, .none, .f3rms,
    [canThrow, canContinue, setsResult, odexOnly], none, none, some 25⟩,
  ⟨"invoke-polymorphic", 0xfa, .method, .f45cc,
    [canThrow, canContinue, setsResult], some .proto, some 26, none⟩,
  ⟨"invoke-polymorphic/range", 0xfb, .method, .f4rcc,
    [canThrow, canContinue, setsResult], some .proto, some 26, none⟩,
  ⟨"invoke-custom", 0xfc, .callSite, .f35c, [canThrow, canContinue, setsResult], none, some 26, none⟩,
  ⟨"invoke-custom/range", 0xfd, .callSite, .f3rc,
    [canThrow, canContinue, setsResult], none, some 26, none⟩,
  ⟨"const-method-handle", 0xfe, .handle, .f21c,
    [canThrow, canContinue, setsRegister], none, some 28, none⟩,
  ⟨"const-method-type", 0xff, .proto, .f21c, [canThrow, canContinue, setsRegister], none, some 28, none⟩,
  ⟨"packed-switch-payload", 0x100, .none, .packedSwitch, [canContinue], none, none, none⟩,
  ⟨"sparse-switch-payload", 0x200, .none, .sparseSwitch, [canContinue], none, none, none⟩,
  ⟨"array-payload", 0x300, .none, .arrayData, [canContinue], none, none, none⟩]

/-- The opcode with a given name. -/
def ofName? (name : String) : Option Opcode :=
  table.find? (·.name == name)

end Dalvik.Opcode

namespace Dalvik

/-- The opcodes of one API level. -/
structure Opcodes where
  api : Int
  deriving DecidableEq, Repr, Hashable

namespace Opcodes

/-- The API level that is taken where none is given. -/
def defaultApi : Int := 33

/-- The opcodes of the default level. -/
def standard : Opcodes := ⟨defaultApi⟩

/-- The opcodes of the newest API level whose files have a given version. -/
def ofVersion (version : Nat) : Result Opcodes :=
  match version with
  | 35 => .ok ⟨23⟩
  | 37 => .ok ⟨25⟩
  | 38 => .ok ⟨27⟩
  | 39 => .ok ⟨defaultApi⟩
  | 40 => .ok ⟨34⟩
  | 41 => .ok ⟨35⟩
  | _ => .fail (.formatVersion version)

/-- The version of files that are written for an API level. -/
def version (o : Opcodes) : Nat :=
  if o.api ≤ 23 then 35
  else if o.api ≤ 25 then 37
  else if o.api ≤ 27 then 38
  else if o.api ≤ 33 then 39
  else if o.api ≤ 34 then 40
  else 41

/-- The opcode with a given value. -/
def opcode? (o : Opcodes) (value : Nat) : Option Opcode :=
  Opcode.table.find? fun op => op.value == value && op.existsAt o.api

/-- The value of an opcode, if there is such an opcode at this level. -/
def value? (o : Opcodes) (op : Opcode) : Option Nat :=
  op.valueAt? o.api

end Opcodes

end Dalvik
