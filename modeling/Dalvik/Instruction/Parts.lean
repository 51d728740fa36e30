import Dalvik.Instruction.Basic

/-!
# Operands by the names of their parts

The formats draw on a small stock of parts: registers, literals, offsets and
references. Here operands are taken apart into the parts that they have, and
put together again for a given format.
-/

namespace Dalvik

/-- Parts of operands. A format has only some of them. -/
structure Parts (ρ : Type) where
  a : Option UInt16 := none
  b : Option UInt16 := none
  c : Option UInt16 := none
  error : Option UInt8 := none
  kind : Option ReferenceKind := none
  offset : Option Int32 := none
  literal : Option Int32 := none
  wideLiteral : Option Int64 := none
  registers : Option (List UInt16) := none
  start : Option UInt16 := none
  count : Option UInt16 := none
  /-- An index or an offset that only optimized code has. -/
  index : Option UInt16 := none
  reference : Option ρ := none
  proto : Option ρ := none
  firstKey : Option Int32 := none
  targets : Option (List Int32) := none
  cases : Option (List (Int32 × Int32)) := none
  width : Option UInt16 := none
  elements : Option (List Int64) := none

namespace Operands

variable {ρ : Type}

/-- The parts of operands. -/
def parts : Operands ρ → Parts ρ
  | f10t offset | f20t offset | f30t offset => { offset }
  | f10x => {}
  | f11n a literal | f21ih a literal | f21s a literal | f31i a literal => { a, literal }
  | f11x a => { a }
  | f12x a b | f22x a b | f32x a b => { a, b }
  | f20bc error kind reference => { error, kind, reference }
  | f21c a reference | f31c a reference => { a, reference }
  | f21lh a wideLiteral | f51l a wideLiteral => { a, wideLiteral }
  | f21t a offset | f31t a offset => { a, offset }
  | f22b a b literal | f22s a b literal => { a, b, literal }
  | f22c a b reference => { a, b, reference }
  | f22cs a b index => { a, b, index }
  | f22t a b offset => { a, b, offset }
  | f23x a b c => { a, b, c }
  | f35c registers reference => { registers, reference }
  | f35mi registers index | f35ms registers index => { registers, index }
  | f3rc start count reference => { start, count, reference }
  | f3rmi start count index | f3rms start count index => { start, count, index }
  | f45cc registers reference proto => { registers, reference, proto }
  | f4rcc start count reference proto => { start, count, reference, proto }
  | packedSwitch firstKey targets => { firstKey, targets }
  | sparseSwitch cases => { cases }
  | arrayData width elements => { width, elements }

/-- The operands of a format with the given parts, if none is missing. -/
def ofParts? (format : Format) (p : Parts ρ) : Option (Operands ρ) := do
  match format with
  | .f10t => return f10t (← p.offset)
  | .f10x => return f10x
  | .f11n => return f11n (← p.a) (← p.literal)
  | .f11x => return f11x (← p.a)
  | .f12x => return f12x (← p.a) (← p.b)
  | .f20bc => return f20bc (← p.error) (← p.kind) (← p.reference)
  | .f20t => return f20t (← p.offset)
  | .f21c => return f21c (← p.a) (← p.reference)
  | .f21ih => return f21ih (← p.a) (← p.literal)
  | .f21lh => return f21lh (← p.a) (← p.wideLiteral)
  | .f21s => return f21s (← p.a) (← p.literal)
  | .f21t => return f21t (← p.a) (← p.offset)
  | .f22b => return f22b (← p.a) (← p.b) (← p.literal)
  | .f22c => return f22c (← p.a) (← p.b) (← p.reference)
  | .f22cs => return f22cs (← p.a) (← p.b) (← p.index)
  | .f22s => return f22s (← p.a) (← p.b) (← p.literal)
  | .f22t => return f22t (← p.a) (← p.b) (← p.offset)
  | .f22x => return f22x (← p.a) (← p.b)
  | .f23x => return f23x (← p.a) (← p.b) (← p.c)
  | .f30t => return f30t (← p.offset)
  | .f31c => return f31c (← p.a) (← p.reference)
  | .f31i => return f31i (← p.a) (← p.literal)
  | .f31t => return f31t (← p.a) (← p.offset)
  | .f32x => return f32x (← p.a) (← p.b)
  | .f35c => return f35c (← p.registers) (← p.reference)
  | .f35mi => return f35mi (← p.registers) (← p.index)
  | .f35ms => return f35ms (← p.registers) (← p.index)
  | .f3rc => return f3rc (← p.start) (← p.count) (← p.reference)
  | .f3rmi => return f3rmi (← p.start) (← p.count) (← p.index)
  | .f3rms => return f3rms (← p.start) (← p.count) (← p.index)
  | .f45cc => return f45cc (← p.registers) (← p.reference) (← p.proto)
  | .f4rcc => return f4rcc (← p.start) (← p.count) (← p.reference) (← p.proto)
  | .f51l => return f51l (← p.a) (← p.wideLiteral)
  | .packedSwitch => return packedSwitch (← p.firstKey) (← p.targets)
  | .sparseSwitch => return sparseSwitch (← p.cases)
  | .arrayData => return arrayData (← p.width) (← p.elements)

end Operands

end Dalvik
