import Dalvik.Value

/-!
# References

What an instruction can refer to, the kinds of such references, and the two
ways between references and their indices: a `Resolver` gives the reference
behind an index, and a `Numbering` gives the index of a reference.
-/

namespace Dalvik

/-- The kinds of references. An instruction that refers to nothing has the
kind `none`. -/
inductive ReferenceKind where
  | none
  | string
  | type
  | field
  | method
  | callSite
  | proto
  | handle
  deriving DecidableEq, Repr, Hashable, Inhabited

namespace ReferenceKind

/-- All kinds. -/
def all : List ReferenceKind :=
  [none, string, type, field, method, callSite, proto, handle]

/-- The name of a kind in messages. -/
def name : ReferenceKind → String
  | none => "None"
  | string => "String"
  | type => "Type"
  | field => "Field"
  | method => "Method"
  | callSite => "CallSite"
  | proto => "MethodProto"
  | handle => "MethodHandle"

/-- The kind with a given name. -/
def ofName? (name : String) : Option ReferenceKind :=
  all.find? (·.name == name)

/-- The kind that two bits of a verification error stand for. -/
def ofVerificationBits (bits : Nat) : Result ReferenceKind :=
  match bits with
  | 0 => .ok type
  | 1 => .ok field
  | 2 => .ok method
  | 3 => .ok proto
  | _ => .fail (.verificationBits bits)

/-- The bits that stand for a kind in a verification error. -/
def verificationBits (kind : ReferenceKind) : Result Nat :=
  match kind with
  | type => .ok 0
  | field => .ok 1
  | method => .ok 2
  | proto => .ok 3
  | _ => .fail (.verificationKind kind.name)

end ReferenceKind

/-- What a dynamic call links to at its first run. -/
structure CallSite where
  handle : MethodHandle
  name : String
  proto : Prototype
  arguments : List Value
  deriving DecidableEq, Repr, Hashable

namespace CallSite

instance : Ord CallSite where
  compare := compareLex (compareOn handle) (compareLex (compareOn name)
    (compareLex (compareOn proto) (compareOn arguments)))

/-- The usual text of a call site. -/
def text (c : CallSite) : String :=
  s!"call_site({c.name}, {c.proto.descriptor})"

/-- The values that a file holds for a call site. -/
def values (c : CallSite) : List Value :=
  .handle c.handle :: .string c.name :: .proto c.proto :: c.arguments

/-- The call site that a list of values describes. -/
def ofValues? : List Value → Option CallSite
  | .handle handle :: .string name :: .proto proto :: arguments => some ⟨handle, name, proto, arguments⟩
  | _ => none

@[simp] theorem ofValues?_values (c : CallSite) : ofValues? c.values = some c := rfl

end CallSite

/-- Anything that an instruction can refer to. -/
inductive Reference where
  | string (s : String)
  | type (descriptor : String)
  | field (f : FieldSig)
  | method (m : MethodSig)
  | proto (p : Prototype)
  | handle (h : MethodHandle)
  | callSite (c : CallSite)
  deriving DecidableEq, Repr, Hashable

namespace Reference

/-- The kind of a reference. -/
def kind : Reference → ReferenceKind
  | string _ => .string
  | type _ => .type
  | field _ => .field
  | method _ => .method
  | proto _ => .proto
  | handle _ => .handle
  | callSite _ => .callSite

/-- The place of each kind in the order of references. -/
def rank : Reference → Nat
  | string _ => 0
  | type _ => 1
  | field _ => 2
  | method _ => 3
  | proto _ => 4
  | handle _ => 5
  | callSite _ => 6

/-- Compares two references of one kind. -/
def compareContent : Reference → Reference → Ordering
  | string a, string b => Ord.compare a b
  | type a, type b => Ord.compare a b
  | field a, field b => Ord.compare a b
  | method a, method b => Ord.compare a b
  | proto a, proto b => Ord.compare a b
  | handle a, handle b => Ord.compare a b
  | callSite a, callSite b => Ord.compare a b
  | _, _ => .eq

/-- The order of references: by kind, then by content. -/
protected def compare (a b : Reference) : Ordering :=
  (Ord.compare a.rank b.rank).then (compareContent a b)

instance : Ord Reference where
  compare := Reference.compare

/-- The usual text of a reference. -/
def text : Reference → String
  | string s => Text.quoted s
  | type descriptor => descriptor
  | field f => f.text
  | method m => m.text
  | proto p => p.descriptor
  | handle h => h.text
  | callSite c => c.text

end Reference

/-- Finds what constants refer to by index. -/
structure ValueResolver where
  string : UInt32 → Result String
  type : UInt32 → Result String
  field : UInt32 → Result FieldSig
  method : UInt32 → Result MethodSig
  proto : UInt32 → Result Prototype
  handle : UInt32 → Result MethodHandle

/-- Finds the references behind indices. -/
structure Resolver extends ValueResolver where
  callSite : UInt32 → Result CallSite

namespace Resolver

/-- The reference of a given kind behind an index. -/
def resolve (r : Resolver) (kind : ReferenceKind) (index : UInt32) : Result Reference :=
  match kind with
  | .string => (r.string index).map .string
  | .type => (r.type index).map .type
  | .field => (r.field index).map .field
  | .method => (r.method index).map .method
  | .proto => (r.proto index).map .proto
  | .handle => (r.handle index).map .handle
  | .callSite => (r.callSite index).map .callSite
  | .none => .fail (.resolveWithoutKind index.toNat)

end Resolver

/-- Finds the indices of what constants refer to. -/
structure ValueNumbering where
  string : String → Result UInt32
  type : String → Result UInt32
  field : FieldSig → Result UInt32
  method : MethodSig → Result UInt32
  proto : Prototype → Result UInt32
  handle : MethodHandle → Result UInt32

/-- Finds the indices of references. -/
structure Numbering extends ValueNumbering where
  callSite : CallSite → Result UInt32

namespace Numbering

/-- The index of a reference among those of its kind. -/
def indexOf (n : Numbering) : Reference → Result UInt32
  | .string s => n.string s
  | .type descriptor => n.type descriptor
  | .field f => n.field f
  | .method m => n.method m
  | .proto p => n.proto p
  | .handle h => n.handle h
  | .callSite c => n.callSite c

end Numbering

end Dalvik
