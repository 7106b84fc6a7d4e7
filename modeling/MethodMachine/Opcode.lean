/-
# Opcodes

jemu's opcode table: `name`, `is_reserved`, `is_branch` and the fixed lengths of `operand_length`
(specification, 6).

An opcode is the byte an instruction starts with.  The bytes `0x00` to `0xCA` are defined, and so
are `0xFE` and `0xFF`; the last byte of that run and the latter two are reserved for debuggers and
never valid in executable code.

| operands after the opcode | opcodes |
| --- | --- |
| one byte | `bipush`, `ldc`, `newarray`, `ret`, the indexed loads and stores |
| two bytes | `sipush`, `ldc_w`, `ldc2_w`, `iinc`, branches, references to the constant pool |
| three bytes | `multianewarray` |
| four bytes | `invokeinterface`, `invokedynamic`, `goto_w`, `jsr_w` |
| five bytes, or three | `wide` before `iinc`, or before anything else |
| padding and a table | `tableswitch`, `lookupswitch` |
| none | all other defined opcodes |
-/

namespace MethodMachine

/-- The byte an instruction starts with. -/
abbrev Opcode := UInt8

/-- How the operands of an opcode are laid out. -/
inductive OperandLayout where
  /-- a fixed number of bytes -/
  | fixed (count : Nat)
  /-- the layout of the modified opcode, with doubled widths -/
  | widened
  /-- padding, a default, the bounds `low` and `high`, and a word for each case between them -/
  | tableSwitch
  /-- padding, a default, the number of pairs, and two words for each pair -/
  | lookupSwitch
deriving DecidableEq

namespace Opcode

/-- The mnemonics of `0x00` to `0xCA`, in order. -/
def mnemonics : Array String :=
  #[
    "nop", "aconst_null", "iconst_m1", "iconst_0", "iconst_1", "iconst_2", "iconst_3", "iconst_4",
    "iconst_5", "lconst_0", "lconst_1", "fconst_0", "fconst_1", "fconst_2", "dconst_0",
    "dconst_1", "bipush", "sipush", "ldc", "ldc_w", "ldc2_w", "iload", "lload", "fload", "dload",
    "aload", "iload_0", "iload_1", "iload_2", "iload_3", "lload_0", "lload_1", "lload_2",
    "lload_3", "fload_0", "fload_1", "fload_2", "fload_3", "dload_0", "dload_1", "dload_2",
    "dload_3", "aload_0", "aload_1", "aload_2", "aload_3", "iaload", "laload", "faload", "daload",
    "aaload", "baload", "caload", "saload", "istore", "lstore", "fstore", "dstore", "astore",
    "istore_0", "istore_1", "istore_2", "istore_3", "lstore_0", "lstore_1", "lstore_2",
    "lstore_3", "fstore_0", "fstore_1", "fstore_2", "fstore_3", "dstore_0", "dstore_1",
    "dstore_2", "dstore_3", "astore_0", "astore_1", "astore_2", "astore_3", "iastore", "lastore",
    "fastore", "dastore", "aastore", "bastore", "castore", "sastore", "pop", "pop2", "dup",
    "dup_x1", "dup_x2", "dup2", "dup2_x1", "dup2_x2", "swap", "iadd", "ladd", "fadd", "dadd",
    "isub", "lsub", "fsub", "dsub", "imul", "lmul", "fmul", "dmul", "idiv", "ldiv", "fdiv",
    "ddiv", "irem", "lrem", "frem", "drem", "ineg", "lneg", "fneg", "dneg", "ishl", "lshl",
    "ishr", "lshr", "iushr", "lushr", "iand", "land", "ior", "lor", "ixor", "lxor", "iinc", "i2l",
    "i2f", "i2d", "l2i", "l2f", "l2d", "f2i", "f2l", "f2d", "d2i", "d2l", "d2f", "i2b", "i2c",
    "i2s", "lcmp", "fcmpl", "fcmpg", "dcmpl", "dcmpg", "ifeq", "ifne", "iflt", "ifge", "ifgt",
    "ifle", "if_icmpeq", "if_icmpne", "if_icmplt", "if_icmpge", "if_icmpgt", "if_icmple",
    "if_acmpeq", "if_acmpne", "goto", "jsr", "ret", "tableswitch", "lookupswitch", "ireturn",
    "lreturn", "freturn", "dreturn", "areturn", "return", "getstatic", "putstatic", "getfield",
    "putfield", "invokevirtual", "invokespecial", "invokestatic", "invokeinterface",
    "invokedynamic", "new", "newarray", "anewarray", "arraylength", "athrow", "checkcast",
    "instanceof", "monitorenter", "monitorexit", "wide", "multianewarray", "ifnull", "ifnonnull",
    "goto_w", "jsr_w", "breakpoint"
  ]

/-- The mnemonic of a defined opcode. -/
def name? (op : Opcode) : Option String :=
  if op = 0xFE then some "impdep1"
  else if op = 0xFF then some "impdep2"
  else mnemonics[op.toNat]?

/-- Whether the opcode is reserved. -/
def isReserved (op : Opcode) : Bool := op = 0xCA || op = 0xFE || op = 0xFF

/-- Whether the opcode is a branch: its operand is an offset from its own address. -/
def isBranch (op : Opcode) : Bool := (0x99 ≤ op && op ≤ 0xA8) || (0xC6 ≤ op && op ≤ 0xC9)

/-- Whether the opcode is a branch whose offset takes four bytes. -/
def isWideBranch (op : Opcode) : Bool := op = 0xC8 || op = 0xC9

/-- An opcode as two hexadecimal digits. -/
def hexText (op : Opcode) : String :=
  let digit (n : Nat) : Char := if n < 10 then Char.ofNat (48 + n) else Char.ofNat (55 + n)
  String.ofList ['0', 'x', digit (op.toNat / 16), digit (op.toNat % 16)]

/-- An opcode for a reader: its mnemonic, if it has one, and its value. -/
def text (op : Opcode) : String :=
  match op.name? with
  | some name => name ++ " [" ++ op.hexText ++ "]"
  | none => op.hexText

/-- The layout of the operands of a defined opcode.  The tests run through the opcodes in increasing
order, so that each line speaks of the opcodes that no line above it has taken. -/
def layout? (op : Opcode) : Option OperandLayout :=
  let n := op.toNat
  if n < 0x10 then some (.fixed 0)
  else if n = 0x11 then some (.fixed 2)
  else if n < 0x13 then some (.fixed 1)
  else if n < 0x15 then some (.fixed 2)
  else if n < 0x1A then some (.fixed 1)
  else if n < 0x36 then some (.fixed 0)
  else if n < 0x3B then some (.fixed 1)
  else if n < 0x84 then some (.fixed 0)
  else if n = 0x84 then some (.fixed 2)
  else if n < 0x99 then some (.fixed 0)
  else if n < 0xA9 then some (.fixed 2)
  else if n = 0xA9 then some (.fixed 1)
  else if n = 0xAA then some .tableSwitch
  else if n = 0xAB then some .lookupSwitch
  else if n < 0xB2 then some (.fixed 0)
  else if n < 0xB9 then some (.fixed 2)
  else if n < 0xBB then some (.fixed 4)
  else if n = 0xBC then some (.fixed 1)
  else if n < 0xBE then some (.fixed 2)
  else if n < 0xC0 then some (.fixed 0)
  else if n < 0xC2 then some (.fixed 2)
  else if n < 0xC4 then some (.fixed 0)
  else if n = 0xC4 then some .widened
  else if n = 0xC5 then some (.fixed 3)
  else if n < 0xC8 then some (.fixed 2)
  else if n < 0xCA then some (.fixed 4)
  else if n = 0xCA ∨ n = 0xFE ∨ n = 0xFF then some (.fixed 0)
  else none

/-- **An opcode has a layout exactly when it has a mnemonic.** -/
theorem isSome_layout?_eq_isSome_name? (op : Opcode) :
    op.layout?.isSome = op.name?.isSome := by
  have h : ∀ n : Fin 256, (layout? (.ofNat n)).isSome = (name? (.ofNat n)).isSome := by
    decide +kernel
  simpa using h ⟨op.toNat, op.toNat_lt⟩

end Opcode

end MethodMachine
