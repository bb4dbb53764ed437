/-! SipHash with one compression round, three finalization rounds and zero keys. -/
namespace Flowline.SipHash

structure State where
  v0 : UInt64
  v1 : UInt64
  v2 : UInt64
  v3 : UInt64

def State.start : State :=
  ⟨0x736f6d6570736575, 0x646f72616e646f6d, 0x6c7967656e657261, 0x7465646279746573⟩

def rotate (x : UInt64) (n : UInt64) : UInt64 := (x <<< n) ||| (x >>> (64 - n))

def State.round (s : State) : State :=
  let v0 := s.v0 + s.v1
  let v1 := rotate s.v1 13 ^^^ v0
  let v0 := rotate v0 32
  let v2 := s.v2 + s.v3
  let v3 := rotate s.v3 16 ^^^ v2
  let v0 := v0 + v3
  let v3 := rotate v3 21 ^^^ v0
  let v2 := v2 + v1
  let v1 := rotate v1 17 ^^^ v2
  ⟨v0, v1, rotate v2 32, v3⟩

def State.absorb (s : State) (m : UInt64) : State :=
  let s := State.round { s with v3 := s.v3 ^^^ m }
  { s with v0 := s.v0 ^^^ m }

/-- Bytes as a little-endian word. -/
def word (bytes : List UInt8) : UInt64 := bytes.foldr (fun b w => (w <<< 8) ||| b.toUInt64) 0

/-- Absorbs whole words; the last one holds the remaining bytes and the length. -/
def absorbAll (length : Nat) : Nat → State → List UInt8 → State
  | 0, s, _ => s
  | fuel + 1, s, bytes =>
    if bytes.length < 8 then s.absorb (word bytes ||| (length.toUInt64 <<< 56))
    else absorbAll length fuel (s.absorb (word (bytes.take 8))) (bytes.drop 8)

def State.finish (s : State) : UInt64 :=
  let s := State.round (State.round (State.round { s with v2 := s.v2 ^^^ 0xff }))
  s.v0 ^^^ s.v1 ^^^ s.v2 ^^^ s.v3

def hash (bytes : List UInt8) : UInt64 :=
  (absorbAll bytes.length (bytes.length + 1) State.start bytes).finish

/-- A number as eight bytes, the lowest first. -/
def littleEndian (n : UInt64) : List UInt8 :=
  (List.range 8).map fun i => (n >>> (8 * i).toUInt64).toUInt8

/-- The hash of a text after its length. -/
def hashText (s : String) : UInt64 :=
  let bytes := s.toUTF8.toList
  hash (littleEndian bytes.length.toUInt64 ++ bytes)

def hexDigits (w : UInt64) : String :=
  String.ofList ((List.range 16).map fun i =>
    Nat.digitChar ((w >>> (4 * (15 - i)).toUInt64) &&& 0xF).toNat)

end Flowline.SipHash
