import SoundArchive.Proofs.Binary.Placement
import SoundArchive.Wave.Adpcm

/-!
# Compressed waves stay in range

Every difference moves the predictor and is clamped on the side to which it moves. So the predictor
stays a sample though it may start one below what the clamp allows, and the step index stays in the
table. The samples are those of the decoder after every half of a byte, one by one.
-/

namespace SoundArchive.Adpcm

/-! ## Ranges -/

namespace Decoder

/-- The step index is in the table, and the predictor is a sample. -/
structure InRange (d : Decoder) : Prop where
  stepIndex_nonneg : 0 ≤ d.stepIndex
  stepIndex_le : d.stepIndex ≤ lastStepIndex
  le_predictor : -0x8000 ≤ d.predictor
  predictor_le : d.predictor ≤ 0x7FFF

variable {d : Decoder}

theorem clampIndex_bounds (index : Int) :
    0 ≤ clampIndex index ∧ clampIndex index ≤ lastStepIndex := by
  unfold clampIndex lastStepIndex
  omega

theorem inRange_start (predictor : Int16) (stepIndex : UInt16) :
    (start predictor stepIndex).InRange where
  stepIndex_nonneg := (clampIndex_bounds _).1
  stepIndex_le := (clampIndex_bounds _).2
  le_predictor := predictor.le_toInt
  predictor_le := Int.le_of_lt_add_one predictor.toInt_lt

theorem step_nonneg (d : Decoder) : 0 ≤ d.step := by
  have hall : ∀ step ∈ steps.toList, 0 ≤ step := by decide
  unfold step
  rw [Array.getD_eq_getD_getElem?]
  cases hstep : steps[d.stepIndex.toNat]? with
  | none => exact Int.le_refl 0
  | some step => exact hall step (Array.mem_def.1 (Array.mem_of_getElem? hstep))

theorem difference_nonneg {step : Int} (h : 0 ≤ step) (nibble : UInt8) :
    0 ≤ difference step nibble := by
  unfold difference
  split <;> split <;> split <;> omega

/-- A difference moves the predictor to one side, so only the bound on that side is at stake. -/
theorem InRange.next (h : d.InRange) (nibble : UInt8) : (d.next nibble).InRange := by
  have hsize := difference_nonneg d.step_nonneg nibble
  have hlow := h.le_predictor
  have hhigh := h.predictor_le
  refine ⟨(clampIndex_bounds _).1, (clampIndex_bounds _).2, ?_, ?_⟩
  · simp only [Decoder.next]
    split <;> omega
  · simp only [Decoder.next]
    split <;> omega

theorem InRange.run (h : d.InRange) (nibbles : List UInt8) :
    (nibbles.foldl Decoder.next d).InRange := by
  induction nibbles generalizing d with
  | nil => exact h
  | cons nibble rest ih => exact ih (h.next nibble)

theorem InRange.stepIndex_lt (h : d.InRange) : d.stepIndex.toNat < steps.size := by
  have hsize : steps.size = lastStepIndex + 1 := rfl
  have hnonneg := h.stepIndex_nonneg
  have hle := h.stepIndex_le
  omega

theorem InRange.toInt_sample (h : d.InRange) : d.sample.toInt = d.predictor := by
  have hlow := h.le_predictor
  have hhigh := h.predictor_le
  exact Int16.toInt_ofInt_of_le hlow (Int.lt_of_le_of_lt hhigh (by decide))

theorem index_lt (nibble : UInt8) : (nibble &&& 7).toNat < indexMoves.size := by
  rw [UInt8.toNat_and]
  exact Nat.lt_of_le_of_lt Nat.and_le_right (by decide)

/-- The decoders after each of the differences. -/
def trace (d : Decoder) : List UInt8 → List Decoder
  | [] => []
  | nibble :: rest => d.next nibble :: trace (d.next nibble) rest

theorem length_trace (d : Decoder) (nibbles : List UInt8) :
    (d.trace nibbles).length = nibbles.length := by
  induction nibbles generalizing d with
  | nil => rfl
  | cons nibble rest ih => exact congrArg (· + 1) (ih _)

theorem trace_append (d : Decoder) (nibbles more : List UInt8) :
    d.trace (nibbles ++ more) = d.trace nibbles ++ (nibbles.foldl Decoder.next d).trace more := by
  induction nibbles generalizing d with
  | nil => rfl
  | cons nibble rest ih => exact congrArg (d.next nibble :: ·) (ih _)

end Decoder

/-! ## Samples -/

/-- The halves of bytes, the low one first. -/
def halves (bytes : List UInt8) : List UInt8 :=
  bytes.flatMap fun byte => [byte &&& 0x0F, byte >>> 4]

theorem length_halves (bytes : List UInt8) : (halves bytes).length = 2 * bytes.length := by
  induction bytes with
  | nil => rfl
  | cons byte rest ih =>
    simp only [halves, List.flatMap_cons, List.length_append, List.length_cons,
      List.length_nil] at ih ⊢
    omega

/-- Byte for byte, the decoder goes the way of the trace and gives its samples. -/
theorem foldl_decodeByte (bytes : List UInt8) (d : Decoder) (samples : Array Int16) :
    bytes.foldl decodeByte (d, samples) = ((halves bytes).foldl Decoder.next d,
      samples ++ ((d.trace (halves bytes)).map Decoder.sample).toArray) := by
  induction bytes generalizing d samples with
  | nil => simp [halves, Decoder.trace]
  | cons byte rest ih =>
    rw [List.foldl_cons, decodeByte, ih]
    simp [halves, Decoder.trace]

/-- The decoder as the header of a wave starts it. -/
def headerDecoder (data : Bytes) : Decoder :=
  .start ((data.u16? 0).getD 0).toInt16 ((data.u16? 2).getD 0)

theorem headerDecoder_append {data : Bytes} (h : headerLength ≤ data.size) (more : Bytes) :
    headerDecoder (data ++ more) = headerDecoder data := by
  rw [headerDecoder, headerDecoder, Bytes.u16?_append (Nat.le_trans (by decide) h),
    Bytes.u16?_append h]

theorem decode_of_lt {data : Bytes} (h : data.size < headerLength) : decode data = #[] := by
  have hsecond : data.u16? 2 = none := by
    rw [← Option.not_isSome_iff_eq_none, Bytes.isSome_u16?_iff]
    exact Nat.not_le.2 h
  unfold decode
  rw [hsecond]
  cases data.u16? 0 <;> rfl

/-- The samples of a wave that has its header, one for each half of a byte behind it. -/
theorem decode_of_le {data : Bytes} (h : headerLength ≤ data.size) : decode data
    = (((headerDecoder data).trace (halves (data.toList.drop headerLength))).map
        Decoder.sample).toArray := by
  obtain ⟨predictor, hpredictor⟩ := Option.isSome_iff_exists.1
    ((Bytes.isSome_u16?_iff data 0).2 (Nat.le_trans (by decide) h))
  obtain ⟨stepIndex, hstepIndex⟩ := Option.isSome_iff_exists.1
    ((Bytes.isSome_u16?_iff data 2).2 h)
  have hbehind : (data.extract headerLength data.size).toList = data.toList.drop headerLength := by
    rw [Array.toList_extract, List.extract_eq_take_drop]
    exact List.take_of_length_le (by simp)
  unfold decode headerDecoder
  simp only [hpredictor, hstepIndex, Option.getD_some]
  rw [← Array.foldl_toList, foldl_decodeByte, hbehind, Array.empty_append]

/-- Every byte behind the header holds two samples. -/
theorem size_decode (data : Bytes) : (decode data).size = 2 * (data.size - headerLength) := by
  by_cases h : headerLength ≤ data.size
  · rw [decode_of_le h, List.size_toArray, List.length_map, Decoder.length_trace, length_halves,
      List.length_drop, Array.length_toList]
  · rw [decode_of_lt (Nat.not_le.1 h), Nat.sub_eq_zero_of_le (Nat.le_of_not_le h)]
    rfl

/-- The samples of a longer wave go on where those of the shorter one end. -/
theorem decode_append {data : Bytes} (h : headerLength ≤ data.size) (more : Bytes) :
    decode (data ++ more) = decode data ++
      ((((halves (data.toList.drop headerLength)).foldl Decoder.next (headerDecoder data)).trace
        (halves more.toList)).map Decoder.sample).toArray := by
  have hlonger : headerLength ≤ (data ++ more).size := by
    rw [Array.size_append]
    omega
  have hbehind : halves ((data ++ more).toList.drop headerLength)
      = halves (data.toList.drop headerLength) ++ halves more.toList := by
    rw [Array.toList_append, List.drop_append_of_le_length (by rwa [Array.length_toList]), halves,
      List.flatMap_append]
    rfl
  rw [decode_of_le hlonger, decode_of_le h, headerDecoder_append h, hbehind, Decoder.trace_append,
    List.map_append, List.append_toArray]

/-- After any bytes the decoder reads within its tables, and its predictor is the sample that it
gives, without wrapping. A wave has two samples for each byte behind its header, and bytes that
are added to it leave the samples that it has. -/
theorem decoder_inRange :
    (∀ (predictor : Int16) (stepIndex : UInt16) (nibbles : List UInt8),
      let d := nibbles.foldl Decoder.next (.start predictor stepIndex)
      (0 ≤ d.stepIndex ∧ d.stepIndex ≤ 88 ∧ d.stepIndex.toNat < steps.size ∧
        ∀ nibble : UInt8, (nibble &&& 7).toNat < indexMoves.size) ∧
      -0x8000 ≤ d.predictor ∧ d.predictor ≤ 0x7FFF ∧ d.sample.toInt = d.predictor) ∧
    (∀ data : Bytes, (decode data).size = 2 * (data.size - headerLength)) ∧
    ∀ data more : Bytes, ∃ later, decode (data ++ more) = decode data ++ later := by
  refine ⟨fun predictor stepIndex nibbles => ?_, size_decode, fun data more => ?_⟩
  · have hrange := (Decoder.inRange_start predictor stepIndex).run nibbles
    exact ⟨⟨hrange.stepIndex_nonneg, hrange.stepIndex_le, hrange.stepIndex_lt, Decoder.index_lt⟩,
      hrange.le_predictor, hrange.predictor_le, hrange.toInt_sample⟩
  · by_cases h : headerLength ≤ data.size
    · exact ⟨_, decode_append h more⟩
    · exact ⟨decode (data ++ more), by rw [decode_of_lt (Nat.not_le.1 h), Array.empty_append]⟩

end SoundArchive.Adpcm
