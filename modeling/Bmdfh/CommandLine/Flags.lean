import Bmdfh.Lib.Decimal
import Bmdfh.Protocol.Packet

/-!
# The command lines

What the two copies of `parse_args` share: `parse_unsigned`, `require_value` and the loop over the
arguments. The chain of comparisons of each program is a table of flags.
-/

namespace Bmdfh.CommandLine

open Decimal Protocol

/-- The errors of `std::from_chars`. -/
inductive Errc
  | invalidArgument
  | resultOutOfRange
deriving DecidableEq

/-- `std::from_chars` to an unsigned type of `bits` bits: the value, and the text from `pointer`
on. -/
def fromChars (bits : Nat) (text : List Char) : Except Errc (Nat × List Char) :=
  let digits := text.takeWhile Char.isDigit
  if digits = [] then throw .invalidArgument
  else if 2 ^ bits ≤ value digits then throw .resultOutOfRange
  else pure (value digits, text.dropWhile Char.isDigit)

def parseUnsigned (bits : Nat) (text flagName : String) : Except RuntimeError Nat :=
  match fromChars bits text.toList with
  | .ok (value, []) => pure value
  | _ => throw ("invalid numeric value for " ++ flagName)

/-- What a flag does with the options. -/
inductive Flag (Options : Type)
  | text (set : String → Options → Options)
  | number (bits : Nat) (set : Nat → Options → Options)
  | switch (set : Options → Options)
  /-- Prints the usage and exits. -/
  | help

inductive Parsed (Options : Type)
  | options (options : Options)
  | help
deriving DecidableEq

/-- The loop of `parse_args` over the arguments to come. -/
def parseLoop {Options : Type} (flags : String → Option (Flag Options)) :
    List String → Options → Except RuntimeError (Parsed Options)
  | [], options => pure (.options options)
  | argument :: rest, options =>
    match flags argument with
    | none => throw ("unknown argument: " ++ argument)
    | some .help => pure .help
    | some (.switch set) => parseLoop flags rest (set options)
    | some (.text set) =>
      match rest with
      | [] => throw ("missing value for " ++ argument)
      | value :: rest => parseLoop flags rest (set value options)
    | some (.number bits set) =>
      match rest with
      | [] => throw ("missing value for " ++ argument)
      | value :: rest => do
        let value ← parseUnsigned bits value argument
        parseLoop flags rest (set value options)

end Bmdfh.CommandLine
