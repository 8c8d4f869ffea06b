/-!
# Opcodes

The canonical opcodes, numbered in the order in which they are listed. An opcode either stands
alone or is followed by one 32-bit operand, whose meaning is its operand kind. Two conversions
are reserved: they are read and written, but no machine executes them.
-/
namespace ModuleLinker

/-- A canonical opcode. -/
inductive Opcode where
  | nop | push | pop | load | store | lea | flea | tload | tstore | copy | swap
  | add | sub | mul | imul | div | idiv | mod | imod | neg | inc | dec
  | and | or | xor | not | shl | sal | shr | sar
  | cmp | icmp | jmp | je | jne | ja | jae | jb | jbe | call | ret
  | tob | tosh | toi | tol | tosi | tod | top
  | null | new | delete | gcnull | gcnew
  | apush | anew | agcnew | alea | count
  deriving DecidableEq

/-- What the operand of an opcode means. -/
inductive OperandKind where
  | absent
  | value
  | label
  | function
  | typeCode
  deriving DecidableEq

namespace Opcode

/-- Every opcode, in canonical order. -/
def all : List Opcode :=
  [nop, push, pop, load, store, lea, flea, tload, tstore, copy, swap,
   add, sub, mul, imul, div, idiv, mod, imod, neg, inc, dec,
   and, or, xor, not, shl, sal, shr, sar,
   cmp, icmp, jmp, je, jne, ja, jae, jb, jbe, call, ret,
   tob, tosh, toi, tol, tosi, tod, top,
   null, new, delete, gcnull, gcnew,
   apush, anew, agcnew, alea, count]

/-- The canonical byte of an opcode: its position among all opcodes. -/
def canonical (o : Opcode) : UInt8 := UInt8.ofNat o.ctorIdx

/-- The opcode with a canonical number. -/
def ofCanonical? (n : Nat) : Option Opcode := all[n]?

/-- Written name of an opcode. -/
def mnemonic : Opcode → String
  | nop => "nop" | push => "push" | pop => "pop" | load => "load" | store => "store"
  | lea => "lea" | flea => "flea" | tload => "tload" | tstore => "tstore" | copy => "copy"
  | swap => "swap" | add => "add" | sub => "sub" | mul => "mul" | imul => "imul"
  | div => "div" | idiv => "idiv" | mod => "mod" | imod => "imod" | neg => "neg"
  | inc => "inc" | dec => "dec" | and => "and" | or => "or" | xor => "xor" | not => "not"
  | shl => "shl" | sal => "sal" | shr => "shr" | sar => "sar" | cmp => "cmp" | icmp => "icmp"
  | jmp => "jmp" | je => "je" | jne => "jne" | ja => "ja" | jae => "jae" | jb => "jb"
  | jbe => "jbe" | call => "call" | ret => "ret" | tob => "tob" | tosh => "tosh"
  | toi => "toi" | tol => "tol" | tosi => "tosi" | tod => "tod" | top => "top"
  | null => "null" | new => "new" | delete => "delete" | gcnull => "gcnull"
  | gcnew => "gcnew" | apush => "apush" | anew => "anew" | agcnew => "agcnew"
  | alea => "alea" | count => "count"

/-- The opcode with a written name. -/
def ofMnemonic? (name : String) : Option Opcode := all.find? fun o => o.mnemonic = name

/-- What the operand of an opcode means. -/
def operandKind : Opcode → OperandKind
  | push | load | store | lea | flea | top | apush => .value
  | jmp | je | jne | ja | jae | jb | jbe => .label
  | call => .function
  | new | gcnew | anew | agcnew => .typeCode
  | _ => .absent

/-- Whether a 32-bit operand follows the opcode. -/
def hasOperand (o : Opcode) : Bool := o.operandKind ≠ .absent

/-- Whether the opcode branches to a label. -/
def isJump (o : Opcode) : Bool := o.operandKind = .label

/-- Whether the opcode is only reserved. -/
def isReserved : Opcode → Bool
  | tob | tosh => true
  | _ => false

/-- Bytes of an encoded instruction: the opcode and its operand, if it has one. -/
def encodedLength (o : Opcode) : Nat := if o.hasOperand then 5 else 1

/-- The properties of an opcode as a bit set: operand, jump, call, allocation, reserved. -/
def flagBits (o : Opcode) : Nat :=
  (match o.operandKind with
    | .absent => 0
    | .value => 1
    | .label => 3
    | .function => 5
    | .typeCode => 9) + if o.isReserved then 16 else 0

@[simp] theorem ofCanonical?_canonical (o : Opcode) : ofCanonical? o.canonical.toNat = some o := by
  cases o <;> rfl

theorem canonical_lt (o : Opcode) : o.canonical.toNat < all.length := by
  cases o <;> decide

end Opcode
end ModuleLinker
