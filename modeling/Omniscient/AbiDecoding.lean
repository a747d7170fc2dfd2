import Omniscient.Evm
import Omniscient.Lib.Outcome

/-! The ABI decoders of the indexer. Sizes are those of a 64-bit machine. A decoder
returns, with a value or none, or it faults: where a checked build panics, be it that
another one wraps instead, and where every build panics. -/

namespace Omniscient.Indexer
open Outcome

inductive Fault where
  | conversion
  | overflow
  | slice
  | decimal
  deriving DecidableEq, Repr

def USIZE_END : Nat := 2 ^ 64

/-- `U256::from_be_bytes`. -/
def fromBeBytes (bytes : Bytes) : Nat := bytes.foldl (fun value byte => 256 * value + byte.toNat) 0

/-- `to::<usize>()`, which panics on a larger number. -/
def toUsize (number : Nat) : Except Fault Nat := do
  revertIf (USIZE_END ≤ number) .conversion
  return number

def addUsize (first second : Nat) : Except Fault Nat := do
  revertIf (USIZE_END ≤ first + second) .overflow
  return first + second

def mulUsize (first second : Nat) : Except Fault Nat := do
  revertIf (USIZE_END ≤ first * second) .overflow
  return first * second

/-- `data[start..stop]`. -/
def sliceOf (data : Bytes) (start stop : Nat) : Except Fault Bytes := do
  revertIf (stop < start ∨ data.length < stop) .slice
  return (data.drop start).take (stop - start)

/-- A decimal text parsed by the BigDecimal crate, whose numbers are `δ`. -/
def u256ToBigDecimal {δ : Type} (fromStr : String → Option δ) (number : Nat) : Except Fault δ :=
  orRevert .decimal (fromStr (String.ofList (Nat.toDigits 10 number)))

/-- What both decoders share: the word at the head is the offset of the single dynamic
argument, where its length stands in front of its content. They differ in where the
content ends and in how it is read. -/
def parseDynamic {α : Type} (data : Bytes) (finish : (start len : Nat) → Except Fault Nat)
    (content : (start len stop : Nat) → Except Fault (Option α)) : Except Fault (Option α) :=
  if data.length < 64 then
    return none
  else do
    let off ← sliceOf data 0 32
    let offset ← toUsize (fromBeBytes off)
    let start ← addUsize offset 32
    if data.length < start then
      return none
    else do
      let lenBytes ← sliceOf data offset start
      let len ← toUsize (fromBeBytes lenBytes)
      let stop ← finish start len
      if data.length < stop then return none else content start len stop

def parseElement {δ : Type} (fromStr : String → Option δ) (data : Bytes) (elemsStart i : Nat) : Except Fault δ := do
  let skipped ← mulUsize i 32
  let start ← addUsize elemsStart skipped
  let stop ← addUsize start 32
  let valBytes ← sliceOf data start stop
  u256ToBigDecimal fromStr (fromBeBytes valBytes)

def elemsEnd (elemsStart len : Nat) : Except Fault Nat := do
  let size ← mulUsize len 32
  addUsize elemsStart size

def parseU256Array {δ : Type} (fromStr : String → Option δ) (data : Bytes) : Except Fault (Option (List δ)) :=
  parseDynamic data elemsEnd fun elemsStart len _ => do
    let out ← (List.range len).mapM (parseElement fromStr data elemsStart)
    return some out

def parseString (data : Bytes) : Except Fault (Option String) :=
  parseDynamic data addUsize fun start _ stop => do
    let text ← sliceOf data start stop
    return String.fromUTF8? text.toByteArray

end Omniscient.Indexer
