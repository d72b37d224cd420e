/-!
# Instructions

One instruction of the stack machine: an operation code and at most one operand. The type does not
tie the two together, since code under construction may hold any pair; that finished code pairs them
as the machine expects is a theorem about the compiler, not part of the type.

Operands have types of the width that they have in the machine, except for indices and positions:
those are natural numbers, as a unit under construction does not know how large it will be. A label
is an operand too, for a jump whose target is not known yet.

Operations that the compiler never emits are left out of the type.
-/

set_option autoImplicit false

namespace StackCode

/-- The operations of the machine. -/
inductive OpCode where
  /-- Push undefined, null, true, false or the receiver. -/
  | push | pushNull | pushTrue | pushFalse | pushThis
  /-- Push the number 1, an immediate integer or a string atom. -/
  | one | int8 | uint16 | uint24 | int32 | string
  /-- Drop the top value, drop it into the completion value, or push it again. -/
  | pop | popv | dup
  | add | sub | mul | div | mod
  | eq | ne | strictEq | strictNe | lt | le | gt | ge
  | and | or | not
  /-- Load or store an argument or local slot. A store leaves the value. -/
  | getArg | setArg | getLocal | setLocal
  /-- Load a global, push the target of a later store to it, and store to it. -/
  | getGlobal | bindGlobal | setGlobal
  | getProp | setProp | getElem | setElem
  /-- Increment an element and leave its old value. -/
  | incElem
  /-- Push a function and its receiver, looked up as a global, a property or an element. -/
  | callGlobal | callProp | callElem
  | call | new | ret
  /-- Open an array, set one element of it, and finish it. -/
  | newArray | initElem | endInit
  /-- Jump, jump when the top value is falsy, and end the unit. -/
  | goto | ifEq | stop
deriving DecidableEq

/-- The mnemonic of an operation in listings. -/
def OpCode.name : OpCode → String
  | .push => "push"
  | .pushNull => "null"
  | .pushTrue => "true"
  | .pushFalse => "false"
  | .pushThis => "this"
  | .one => "one"
  | .int8 => "int8"
  | .uint16 => "uint16"
  | .uint24 => "uint24"
  | .int32 => "int32"
  | .string => "string"
  | .pop => "pop"
  | .popv => "popv"
  | .dup => "dup"
  | .add => "add"
  | .sub => "sub"
  | .mul => "mul"
  | .div => "div"
  | .mod => "mod"
  | .eq => "eq"
  | .ne => "ne"
  | .strictEq => "stricteq"
  | .strictNe => "strictne"
  | .lt => "lt"
  | .le => "le"
  | .gt => "gt"
  | .ge => "ge"
  | .and => "and"
  | .or => "or"
  | .not => "not"
  | .getArg => "getarg"
  | .setArg => "setarg"
  | .getLocal => "getlocal"
  | .setLocal => "setlocal"
  | .getGlobal => "getgname"
  | .bindGlobal => "bindgname"
  | .setGlobal => "setgname"
  | .getProp => "getprop"
  | .setProp => "setprop"
  | .getElem => "getelem"
  | .setElem => "setelem"
  | .incElem => "eleminc"
  | .callGlobal => "callgname"
  | .callProp => "callprop"
  | .callElem => "callelem"
  | .call => "call"
  | .new => "new"
  | .ret => "return"
  | .newArray => "newarray"
  | .initElem => "initelem"
  | .endInit => "endinit"
  | .goto => "goto"
  | .ifEq => "ifeq"
  | .stop => "stop"

/-- Every operation, in the order of the machine's definition. -/
def OpCode.all : List OpCode :=
  [.push, .pushNull, .pushTrue, .pushFalse, .pushThis, .one, .int8, .uint16, .uint24, .int32,
    .string, .pop, .popv, .dup, .add, .sub, .mul, .div, .mod, .eq, .ne, .strictEq, .strictNe, .lt,
      .le, .gt, .ge, .and, .or, .not, .getArg, .setArg, .getLocal, .setLocal, .getGlobal,
        .bindGlobal, .setGlobal, .getProp, .setProp, .getElem, .setElem, .incElem, .callGlobal,
          .callProp, .callElem, .call, .new, .ret, .newArray, .initElem, .endInit,
            .goto, .ifEq, .stop]

/-- The operation with a given mnemonic. -/
def OpCode.ofName? (name : String) : Option OpCode :=
  OpCode.all.find? fun code => code.name = name

/-- A jump target, by its number in the order of allocation. -/
structure Label where
  index : Nat
deriving DecidableEq

/-- What an instruction carries besides its operation. -/
inductive Operand where
  /-- An argument or local slot. -/
  | slot (n : UInt16)
  /-- An index into the unit's atoms. -/
  | atom (index : Nat)
  | int8 (value : Int8)
  | uint16 (value : UInt16)
  /-- An immediate below `2 ^ 24`. -/
  | uint24 (value : UInt32)
  | int32 (value : Int32)
  /-- The number of arguments of a call. -/
  | argCount (n : UInt16)
  /-- The number of elements of an array. -/
  | length (n : Nat)
  /-- The index of the instruction to go to. -/
  | jump (target : Nat)
  /-- A jump target whose position is not known yet. -/
  | label (l : Label)
deriving DecidableEq

/-- The integer of an immediate operand. -/
def Operand.toInt? : Operand → Option Int
  | .int8 v => some v.toInt
  | .uint16 v => some v.toNat
  | .uint24 v => some v.toNat
  | .int32 v => some v.toInt
  | _ => none

/-- Whether the operand waits for the position of a label. -/
def Operand.isLabel : Operand → Bool
  | .label _ => true
  | _ => false

/-- An operation with its operand, if it has one. -/
structure Instruction where
  opcode : OpCode
  operand : Option Operand := none
deriving DecidableEq

namespace Instruction

/-- Whether the instruction transfers control to its operand. -/
def isJump (i : Instruction) : Bool :=
  i.opcode = .goto || i.opcode = .ifEq

/-- Whether the operand of the instruction is a label. -/
def isUnresolved (i : Instruction) : Bool :=
  i.operand.any Operand.isLabel

end Instruction

end StackCode
