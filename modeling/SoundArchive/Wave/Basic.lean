import SoundArchive.Binary.Resource
import SoundArchive.Wave.Adpcm

/-!
# Waves

A wave is recorded sound in one of three formats, with the loop that sustains it. Its loop is
kept in words of four bytes, as it is stored; `loopStart` and `loopLength` count samples.
-/

namespace SoundArchive

inductive WaveFormat where
  | pcm8
  | pcm16
  | adpcm
deriving DecidableEq

namespace WaveFormat

def ofByte? : UInt8 → Option WaveFormat
  | 0 => some pcm8
  | 1 => some pcm16
  | 2 => some adpcm
  | _ => none

def toByte : WaveFormat → UInt8
  | pcm8 => 0
  | pcm16 => 1
  | adpcm => 2

def samplesPerWord : WaveFormat → UInt32
  | pcm8 => 4
  | pcm16 => 2
  | adpcm => 8

end WaveFormat

namespace Wave

/-- The halfwords of the data. A byte left over at the end is no sample. -/
def halfwords (data : Bytes) : Array Int16 :=
  (Array.range (data.size / 2)).map fun i => ((data.u16? (2 * i)).getD 0).toInt16

/-- The samples of the stored data, scaled to 16 bits. -/
def decodeSamples (format : WaveFormat) (data : Bytes) : Array Int16 :=
  match format with
  | .pcm8 => data.map fun b => b.toInt8.toInt16 * 256
  | .pcm16 => halfwords data
  | .adpcm => Adpcm.decode data

end Wave

structure Wave where
  format : WaveFormat
  looped : Bool
  sampleRate : UInt16
  /-- The timer that plays the wave at its own rate. -/
  timer : UInt16
  /-- Start of the loop, in words. -/
  loopOffset : UInt16
  /-- Length of what is behind the start of the loop, in words. -/
  loopWords : UInt32
  data : Bytes
  samples : Array Int16 := Wave.decodeSamples format data
  samples_eq : samples = Wave.decodeSamples format data := by rfl
deriving DecidableEq

namespace Wave

/-- A wave of this data, whose loop lasts to the end. -/
def ofData (format : WaveFormat) (looped : Bool) (sampleRate timer loopOffset : UInt16)
    (data : Bytes) : Wave :=
  { format, looped, sampleRate, timer, loopOffset, data
    loopWords := (data.size.toUInt32.toNat / 4 - loopOffset.toNat).toUInt32 }

def infoLength : Nat := 12

def decode (body : Bytes) (offset : Nat) : Except ResourceError Wave := do
  let formatByte ← Resource.required body[offset]?
  match WaveFormat.ofByte? formatByte with
  | none => throw (.waveFormat formatByte)
  | some format =>
    let looped ← Resource.required body[offset + 1]?
    let sampleRate ← Resource.required (body.u16? (offset + 2))
    let timer ← Resource.required (body.u16? (offset + 4))
    let loopOffset ← Resource.required (body.u16? (offset + 6))
    let loopWords ← Resource.required (body.u32? (offset + 8))
    let data ← Resource.required
      (body.slice? (offset + infoLength) ((loopOffset.toNat + loopWords.toNat) * 4))
    return { format, looped := looped ≠ 0, sampleRate, timer, loopOffset, loopWords, data }

def encode (w : Wave) : Bytes :=
  #[w.format.toByte, if w.looped then 1 else 0] ++ Bytes.ofU16 w.sampleRate
    ++ Bytes.ofU16 w.timer ++ Bytes.ofU16 w.loopOffset ++ Bytes.ofU32 w.loopWords ++ w.data

def encodedLength (w : Wave) : Nat := infoLength + w.data.size

/-- The sample that playback goes back to. The first word of a compressed wave holds no
samples. -/
def loopStart (w : Wave) : UInt32 :=
  match w.format with
  | .adpcm => (w.loopOffset.toUInt32 - (if w.loopOffset = 0 then 0 else 1)) * 8
  | format => w.loopOffset.toUInt32 * format.samplesPerWord

def loopLength (w : Wave) : UInt32 := w.loopWords * w.format.samplesPerWord

end Wave

end SoundArchive
