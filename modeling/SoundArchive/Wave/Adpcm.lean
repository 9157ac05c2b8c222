import SoundArchive.Binary.Bytes

/-!
# Compressed waves

A compressed wave begins with four bytes: the first predictor and the first step index. Every
byte behind them holds two differences of four bits, the low half first. A difference is a sign
and three fractions of the current step, and it also moves the step index.
-/

namespace SoundArchive.Adpcm

def steps : Array Int := #[
  7, 8, 9, 10, 11, 12, 13, 14, 16, 17, 19, 21, 23, 25, 28, 31, 34, 37, 41, 45, 50, 55, 60, 66,
  73, 80, 88, 97, 107, 118, 130, 143, 157, 173, 190, 209, 230, 253, 279, 307, 337, 371, 408,
  449, 494, 544, 598, 658, 724, 796, 876, 963, 1060, 1166, 1282, 1411, 1552, 1707, 1878, 2066,
  2272, 2499, 2749, 3024, 3327, 3660, 4026, 4428, 4871, 5358, 5894, 6484, 7132, 7845, 8630,
  9493, 10442, 11487, 12635, 13899, 15289, 16818, 18500, 20350, 22385, 24623, 27086, 29794,
  32767]

def lastStepIndex : Int := 88

/-- How far the step index moves, by the size of the difference. -/
def indexMoves : Array Int := #[-1, -1, -1, -1, 2, 4, 6, 8]

structure Decoder where
  predictor : Int
  stepIndex : Int
deriving DecidableEq

namespace Decoder

def clampIndex (index : Int) : Int := max 0 (min lastStepIndex index)

def start (predictor : Int16) (stepIndex : UInt16) : Decoder :=
  { predictor := predictor.toInt, stepIndex := clampIndex stepIndex.toNat }

/-- The step that the next difference is a fraction of. -/
def step (d : Decoder) : Int := steps.getD d.stepIndex.toNat 0

/-- The size of a difference: an eighth of the step, and the fractions that its bits choose. -/
def difference (step : Int) (nibble : UInt8) : Int :=
  step / 8 + (if nibble &&& 1 ≠ 0 then step / 4 else 0)
    + (if nibble &&& 2 ≠ 0 then step / 2 else 0) + (if nibble &&& 4 ≠ 0 then step else 0)

/-- The decoder after one difference. Its predictor is the sample. -/
def next (d : Decoder) (nibble : UInt8) : Decoder :=
  let size := difference d.step nibble
  { predictor :=
      if nibble &&& 8 ≠ 0 then max (-0x7FFF) (d.predictor - size)
      else min 0x7FFF (d.predictor + size)
    stepIndex := clampIndex (d.stepIndex + indexMoves.getD (nibble &&& 7).toNat 0) }

def sample (d : Decoder) : Int16 := Int16.ofInt d.predictor

end Decoder

def headerLength : Nat := 4

/-- The decoder and the samples after one more byte. -/
def decodeByte (state : Decoder × Array Int16) (byte : UInt8) : Decoder × Array Int16 :=
  let low := state.1.next (byte &&& 0x0F)
  let high := low.next (byte >>> 4)
  (high, (state.2.push low.sample).push high.sample)

/-- All samples of a compressed wave. One that lacks its header has none. -/
def decode (data : Bytes) : Array Int16 :=
  match data.u16? 0, data.u16? 2 with
  | some predictor, some stepIndex =>
    ((data.extract headerLength data.size).foldl decodeByte
      (Decoder.start predictor.toInt16 stepIndex, #[])).2
  | _, _ => #[]

end SoundArchive.Adpcm
