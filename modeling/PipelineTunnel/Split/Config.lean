import PipelineTunnel.Lib.CString
import PipelineTunnel.Split.Reassembly

/-!
# The configuration of the split module

`init` of `modules/split/split.cpp` reads the number of outputs and the range of the
chunk sizes from the configuration string. Whatever the string is, the context can be
used by `process_split`.

## Implementation notes

The trace flag is left out, as the trace output is. `init` always gets an API with
`request_outputs` from the chain.
-/

namespace PipelineTunnel.Split

open CString

def MIN_CHUNK : Nat := 64
def MAX_CHUNK : Nat := 65536

/-- `CLAMP` with the limits of a chunk size. -/
def clampChunk (x : Int) : Nat :=
  if x < MIN_CHUNK then MIN_CHUNK else if x > MAX_CHUNK then MAX_CHUNK else x.toNat

/-- `parse_size`; the product wraps around. -/
def parseSize (s : List Char) (deflt : Nat) : Nat :=
  if s = [] then deflt
  else
    let val := atol s
    if val ≤ 0 then deflt
    else
      let val := if s.getLast? = some 'K' ∨ s.getLast? = some 'k' then toLong (val * 1024) else val
      clampChunk (toInt val)

/-- The sizes after `s:`, in the order of the string; `tmp` holds 63 characters. -/
def givenSizes (sp : List Char) : Nat × Nat :=
  match strchr sp '-' with
  | some dash =>
      let tmp := sp.take (min (sp.length - dash.length) 63)
      (parseSize tmp DEF_CHUNK_SIZE, parseSize (dash.drop 1) DEF_CHUNK_SIZE)
  | none => (parseSize sp DEF_CHUNK_SIZE, parseSize sp DEF_CHUNK_SIZE)

/-- The chunk sizes, the smaller one first. -/
def chunkSizes (config : List Char) : Nat × Nat :=
  match strstr config ['s', ':'] with
  | none => (DEF_CHUNK_SIZE, DEF_CHUNK_SIZE)
  | some sp =>
      let sizes := givenSizes (sp.drop 2)
      if sizes.1 > sizes.2 then (sizes.2, sizes.1) else sizes

/-- `extra_outputs`, which counts all outputs towards the wire. -/
def extraOutputs (config : List Char) : Int :=
  let n :=
    match strstr config ['n', ':'] with
    | some np => atoi (np.drop 2)
    | none =>
        if ['s', 'p', 'l', 'i', 't', ':'].isPrefixOf config then atoi (config.drop 6) else 1
  if n < 1 then 1 else n

/-- The context that `init` returns. -/
def SplitContext.init (config : String) : SplitContext :=
  let sizes := chunkSizes config.toList
  { numOutputs := (extraOutputs config.toList).toNat
    chunkSizeMin := sizes.1
    chunkSizeMax := sizes.2 }

/-- `extras_needed`, which `init` passes to `request_outputs`. -/
def extrasNeeded (config : String) : Int :=
  let n := extraOutputs config.toList
  if n > 1 then n - 1 else 0

theorem clampChunk_bounds (x : Int) : 64 ≤ clampChunk x ∧ clampChunk x ≤ 65536 := by
  have hmin : MIN_CHUNK = 64 := rfl
  have hmax : MAX_CHUNK = 65536 := rfl
  rw [clampChunk]
  by_cases hlo : x < MIN_CHUNK
  · rw [if_pos hlo]
    omega
  · rw [if_neg hlo]
    by_cases hhi : x > MAX_CHUNK
    · rw [if_pos hhi]
      omega
    · rw [if_neg hhi]
      omega

theorem parseSize_bounds (s : List Char) {deflt : Nat} (hlo : 64 ≤ deflt) (hhi : deflt ≤ 65536) :
    64 ≤ parseSize s deflt ∧ parseSize s deflt ≤ 65536 := by
  rw [parseSize]
  split
  · exact ⟨hlo, hhi⟩
  · dsimp only
    split
    · exact ⟨hlo, hhi⟩
    · exact clampChunk_bounds _

theorem givenSizes_bounds (sp : List Char) :
    (64 ≤ (givenSizes sp).1 ∧ (givenSizes sp).1 ≤ 65536) ∧
      64 ≤ (givenSizes sp).2 ∧ (givenSizes sp).2 ≤ 65536 := by
  have hsize : ∀ s, 64 ≤ parseSize s DEF_CHUNK_SIZE ∧ parseSize s DEF_CHUNK_SIZE ≤ 65536 :=
    fun s => parseSize_bounds s (by decide) (by decide)
  rw [givenSizes]
  split
  · exact ⟨hsize _, hsize _⟩
  · exact ⟨hsize _, hsize _⟩

theorem chunkSizes_bounds (config : List Char) :
    64 ≤ (chunkSizes config).1 ∧ (chunkSizes config).1 ≤ (chunkSizes config).2 ∧
      (chunkSizes config).2 ≤ 65536 := by
  rw [chunkSizes]
  split
  · decide
  · rename_i sp _
    obtain ⟨⟨hlo, hlo'⟩, hhi, hhi'⟩ := givenSizes_bounds (sp.drop 2)
    dsimp only
    split <;> omega

theorem extraOutputs_pos (config : List Char) : 1 ≤ extraOutputs config := by
  rw [extraOutputs]
  split <;> omega

/-- Every configuration gives a context that `process_split` can work with. -/
theorem SplitContext.init_configured (config : String) : (init config).Configured where
  outputs := by
    have := extraOutputs_pos config.toList
    simp only [init]
    omega
  minSize := (chunkSizes_bounds config.toList).1
  sizeRange := (chunkSizes_bounds config.toList).2.1
  maxSize := (chunkSizes_bounds config.toList).2.2
  chunkIdx := rfl

/-- The instance asks for one output less than it writes to: the first one is there. -/
theorem extrasNeeded_eq (config : String) :
    (extrasNeeded config).toNat + 1 = (SplitContext.init config).numOutputs := by
  have := extraOutputs_pos config.toList
  simp only [extrasNeeded, SplitContext.init]
  split <;> omega

end PipelineTunnel.Split
