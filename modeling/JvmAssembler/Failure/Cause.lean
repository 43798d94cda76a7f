import JvmAssembler.Descriptor
import JvmAssembler.Instruction

/-!
# Causes

Everything that can go wrong while a class is built, resolved and written, as data. The wording of
each cause is in `Cause.message` and nowhere else.
-/

set_option autoImplicit false

namespace JvmAssembler

/-- What went wrong, without the place where it happened. -/
inductive Cause where
  /-- A reason given from outside, in its own words. -/
  | stated (message : Text)
  | descriptor (error : DescriptorError)
  /-- A table holds more symbols than a pool can index. -/
  | poolTooLarge (entries limit : Nat)
  /-- A symbol refers to one that is not in the table. -/
  | danglingReference (symbol reference : Symbol)
  | neverInterned (symbol : Symbol)
  /-- An instruction lacks its one symbol. -/
  | missingSymbol (op : Opcode)
  /-- An instruction lacks one of its two symbols. -/
  | missingSymbolOfPair (op : Opcode)
  /-- The stack effect depends on a member that the instruction does not name. -/
  | missingMember (op : Opcode)
  /-- An instruction takes more slots than are on the stack. -/
  | stackUnderflow (index : Nat) (instruction : Instruction) (pops depth : Nat)
  /-- The stack or the local variables of a method outgrow their 16-bit fields. -/
  | limitsTooLarge (stack locals : Nat)
  | emptyMethodName
  | emptyMethodDescriptor (name : Text)
  | missingInstruction (index : Nat)
  | unknownOpcode (index : Nat) (op : Opcode)
  | emptyClassName
  | emptySuperName (className : Text)
  | tooManyMethods (count : Nat)
  | missingMethod (index : Nat)
  | missingClass
  /-- A text constant cannot be written to a class file. -/
  | unwritableText (text : Text)
  | outOfRange (field : Text) (value : Int) (largest : Nat)
  | classAlreadyBegun (first : Text)
  | severalSupers (className : Text) (count : Nat)
  | noClassEnded
  | begunAfterClassEnd (method className : Text)
  | begunWhileOpen (method openMethod : Text)
  | classAlreadyEnded (className : Text)
  | methodStillOpen (method : Text)
  /-- A text that is to become part of the class is not UTF-8. -/
  | invalidText (what text : Text)
  | emittedAfterEnd (instruction : Instruction) (method : Text)
  | parameterAlreadyDeclared (name : Text)
  | slotTooLarge (name : Text) (slot largest : Nat)
  | integerTooLarge (value : Int)
  | methodNeverBegun (method : Text)
  | methodAlreadyEnded (method : Text)
deriving DecidableEq

namespace Cause

/-- The wording of a cause. Methods are named by name and descriptor, one after the other. -/
def message : Cause → Text
  | .stated message => message
  | .descriptor error => error.message
  | .poolTooLarge entries limit =>
    .concat ["constant pool has ", .decimal entries, " entries, at most ", .decimal limit,
      " allowed"]
  | .danglingReference symbol reference =>
    .concat [symbol.tag.text, " ", symbol.text, " references ", reference.tag.text, " ",
      reference.text, " which was never interned"]
  | .neverInterned symbol => .concat [symbol.tag.text, " ", symbol.text, " was never interned"]
  | .missingSymbol op => .concat [op.name, " has no symbol"]
  | .missingSymbolOfPair op => .concat [op.name, " is missing a symbol"]
  | .missingMember op => .concat [op.name, " needs a field or method reference"]
  | .stackUnderflow index instruction pops depth =>
    .concat ["instruction ", .decimal index, " (", instruction.text, ") pops ", .decimal pops,
      " with only ", .decimal depth, " on the stack"]
  | .limitsTooLarge stack locals =>
    .concat ["stack ", .decimal stack, " or locals ", .decimal locals, " exceed 65535"]
  | .emptyMethodName => "method name is empty"
  | .emptyMethodDescriptor name =>
    .concat ["method ", Quoted.quote name, " has an empty descriptor"]
  | .missingInstruction index => .concat ["instruction ", .decimal index, " is nil"]
  | .unknownOpcode index op =>
    .concat ["instruction ", .decimal index, " has unknown opcode 0x", .hex 2 op.byte.toNat]
  | .emptyClassName => "class name is empty"
  | .emptySuperName className =>
    .concat ["super class name of ", Quoted.quote className, " is empty"]
  | .tooManyMethods count =>
    .concat ["class has ", .decimal count, " methods, at most 65535 allowed"]
  | .missingMethod index => .concat ["method ", .decimal index, " is nil"]
  | .missingClass => "class is nil"
  | .unwritableText text => .concat ["Utf8 ", Quoted.quote text, " is not valid UTF-8"]
  | .outOfRange field value largest =>
    .concat [field, " is ", .signed value, ", must be between 0 and ", .decimal largest]
  | .classAlreadyBegun first => .concat ["class ", Quoted.quote first, " was already begun"]
  | .severalSupers className count =>
    .concat ["class ", Quoted.quote className, " has ", .decimal count, " super classes"]
  | .noClassEnded => "no class has been ended"
  | .begunAfterClassEnd method className =>
    .concat ["method ", method, " begun after class ", Quoted.quote className, " ended"]
  | .begunWhileOpen method openMethod =>
    .concat ["method ", method, " begun while ", openMethod, " is open"]
  | .classAlreadyEnded className => .concat ["class ", Quoted.quote className, " already ended"]
  | .methodStillOpen method => .concat ["method ", method, " is still open"]
  | .invalidText what text => .concat [what, " ", Quoted.quote text, " is not valid UTF-8"]
  | .emittedAfterEnd instruction method =>
    .concat [instruction.text, " emitted after method ", method, " ended"]
  | .parameterAlreadyDeclared name =>
    .concat ["parameter ", Quoted.quote name, " is already declared"]
  | .slotTooLarge name slot largest =>
    .concat ["local ", Quoted.quote name, " needs slot ", .decimal slot,
      ", the highest available is ", .decimal largest]
  | .integerTooLarge value =>
    .concat ["int constant ", .signed value, " does not fit in 32 bits"]
  | .methodNeverBegun method => .concat ["method ", method, " was never begun"]
  | .methodAlreadyEnded method => .concat ["method ", method, " already ended"]

end Cause

end JvmAssembler
