import Dalvik.Signature

/-!
# Method handles

A method handle either accesses a field or invokes a method, in one of nine
ways. The way and the member always fit together.
-/

namespace Dalvik

/-- What a method handle does. -/
inductive HandleKind where
  | staticPut
  | staticGet
  | instancePut
  | instanceGet
  | invokeStatic
  | invokeInstance
  | invokeConstructor
  | invokeDirect
  | invokeInterface
  deriving DecidableEq, Repr, Hashable, Inhabited

namespace HandleKind

/-- All kinds, in the order of their codes. -/
def all : List HandleKind :=
  [staticPut, staticGet, instancePut, instanceGet, invokeStatic, invokeInstance, invokeConstructor,
    invokeDirect, invokeInterface]

/-- The number that stands for a kind in a file. -/
def code : HandleKind → Nat
  | staticPut => 0
  | staticGet => 1
  | instancePut => 2
  | instanceGet => 3
  | invokeStatic => 4
  | invokeInstance => 5
  | invokeConstructor => 6
  | invokeDirect => 7
  | invokeInterface => 8

/-- The kind with a given code. -/
def ofCode (code : Nat) : Result HandleKind :=
  match all[code]? with
  | some kind => .ok kind
  | none => .fail (.handleKindUnknown code)

theorem ofCode_code (kind : HandleKind) : ofCode kind.code = .ok kind := by
  cases kind <;> rfl

/-- The name of a kind in messages. -/
def name : HandleKind → String
  | staticPut => "StaticPut"
  | staticGet => "StaticGet"
  | instancePut => "InstancePut"
  | instanceGet => "InstanceGet"
  | invokeStatic => "InvokeStatic"
  | invokeInstance => "InvokeInstance"
  | invokeConstructor => "InvokeConstructor"
  | invokeDirect => "InvokeDirect"
  | invokeInterface => "InvokeInterface"

/-- Whether the handle accesses a field. -/
def accessesField (kind : HandleKind) : Bool :=
  kind.code ≤ 3

instance : Ord HandleKind where
  compare := compareOn code

instance : Std.TransOrd HandleKind :=
  inferInstanceAs (Std.TransCmp (compareOn code))

instance : Std.LawfulEqOrd HandleKind where
  eq_of_compare {a b} h := by
    have h : compareOn code a b = .eq := h
    cases a <;> cases b <;> first | rfl | exact absurd h (by decide)

end HandleKind

/-- What a method handle refers to. -/
inductive HandleMember where
  | field (sig : FieldSig)
  | method (sig : MethodSig)
  deriving DecidableEq, Repr, Hashable

namespace HandleMember

/-- Whether the member is a field. -/
def isField : HandleMember → Bool
  | field _ => true
  | method _ => false

/-- Fields come before methods. -/
protected def compare : HandleMember → HandleMember → Ordering
  | field a, field b => Ord.compare a b
  | field _, method _ => .lt
  | method _, field _ => .gt
  | method a, method b => Ord.compare a b

instance : Ord HandleMember where
  compare := HandleMember.compare

instance : Std.LawfulEqOrd HandleMember where
  compare_self {a} := by
    show HandleMember.compare a a = .eq
    cases a <;> exact Std.ReflOrd.compare_self
  eq_of_compare {a b} h := by
    have h : HandleMember.compare a b = .eq := h
    cases a <;> cases b <;> simp_all [HandleMember.compare]

instance : Std.TransOrd HandleMember where
  eq_swap {a b} := by
    show HandleMember.compare a b = (HandleMember.compare b a).swap
    cases a <;> cases b <;> simp only [HandleMember.compare] <;>
      first | rfl | exact Std.OrientedOrd.eq_swap
  isLE_trans {a b c} hab hbc := by
    change (HandleMember.compare a b).isLE at hab
    change (HandleMember.compare b c).isLE at hbc
    show (HandleMember.compare a c).isLE
    cases a <;> cases b <;> cases c <;> simp only [HandleMember.compare] at hab hbc ⊢ <;>
      first | rfl | contradiction | exact Std.TransOrd.isLE_trans hab hbc

/-- A member with its parts spelled out. -/
def spelled : HandleMember → String
  | field sig => Text.tagged "Field" [sig.spelled]
  | method sig => Text.tagged "Method" [sig.spelled]

end HandleMember

/-- A way to access a field or to invoke a method, of a kind that fits the member: `make` gives no
other handle, and rewriting a member keeps it a field or a method. -/
structure MethodHandle where
  kind : HandleKind
  member : HandleMember
  kind_fits : kind.accessesField = member.isField
  deriving DecidableEq, Repr, Hashable

namespace MethodHandle

/-- The handle of a kind for a member that fits it. -/
def make (kind : HandleKind) (member : HandleMember) : Result MethodHandle :=
  if h : kind.accessesField = member.isField then .ok ⟨kind, member, h⟩
  else .fail (.handleMemberMismatch kind.name)

instance : Ord MethodHandle where
  compare := compareLex (compareOn kind) (compareOn member)

instance : Std.TransOrd MethodHandle :=
  inferInstanceAs (Std.TransCmp (compareLex (compareOn kind) (compareOn member)))

instance : Std.LawfulEqOrd MethodHandle where
  eq_of_compare {a b} h := by
    have h : compareLex (compareOn kind) (compareOn member) a b = .eq := h
    simp only [compareLex_eq_eq, compareOn, Std.compare_eq_iff_eq] at h
    cases a
    cases b
    simp_all

/-- The usual text of a handle. -/
def text (h : MethodHandle) : String :=
  h.kind.name ++ "@" ++ h.member.spelled

/-- A handle with its parts spelled out. -/
def spelled (h : MethodHandle) : String :=
  Text.record "MethodHandleRef" [("handle_type", h.kind.name), ("member", h.member.spelled)]

end MethodHandle

end Dalvik
