import PipelineTunnel.Lib.Runs
import PipelineTunnel.Core.Protocol

/-!
# The run-length coder of `compress`

`modules/compress/rle_impl.nim`. A run of three to 255 equal bytes is coded as `0`, the
byte and the length; other bytes as `1`, a length and the bytes; and an input that does
not get shorter is stored behind a `2`. When a short run is followed by bytes that are not
a long run either, `rleCompress` counts only the bytes behind the short run but copies
from its start, so the last bytes of the stretch are missing from the output.

## Implementation notes

A position in a buffer is given by the bytes from there to its end, and what was written
to `dst` is a list whose length is `o`. The loops have a bound on their rounds and return
`none` beyond it. The result of a function is its return value with what it wrote.
-/

namespace PipelineTunnel.Modules.Rle

open Runs

/-! ## rleCompress -/

/-- The loops that count equal bytes, with the count so far: the run at the start of a token
and the `lookahead`. -/
def runLoop (b : UInt8) (runLen : Nat) : Bytes → Nat
  | [] => runLen
  | x :: rest => if x = b ∧ runLen < 255 then runLoop b (runLen + 1) rest else runLen

/-- The loop that counts literal bytes up to the next run of at least three. -/
def litLoop (litLen : Nat) : Bytes → Nat
  | [] => litLen
  | nb :: rest =>
      if litLen < 255 then
        let lookahead := runLoop nb 1 rest
        if lookahead ≥ 3 then litLen else litLoop (litLen + 1) rest
      else litLen

def rleCompressLoop (maxDst : Nat) : Nat → Bytes → Bytes → Option (Int × Bytes)
  | _, [], out => some (0, out)
  | 0, _ :: _, _ => none
  | fuel + 1, b :: tail, out =>
      let runLen := runLoop b 1 tail
      if runLen ≥ 3 then
        if out.length + 3 > maxDst then some (-1, out)
        else rleCompressLoop maxDst fuel ((b :: tail).drop runLen)
          (out ++ [0, b, UInt8.ofNat runLen])
      else
        -- `litStart` is `runStart`, but `litLen` counts from behind the run
        let litLen := litLoop 0 ((b :: tail).drop runLen)
        let next := if litLen = 0 then 1 else runLen + litLen
        let litLen := if litLen = 0 then 1 else litLen
        if out.length + 2 + litLen > maxDst then some (-1, out)
        else rleCompressLoop maxDst fuel ((b :: tail).drop next)
          (out ++ ([1, UInt8.ofNat litLen] ++ (b :: tail).take litLen))

def rleCompress (src : Bytes) (maxDst : Nat) : Option (Int × Bytes) :=
  match rleCompressLoop maxDst src.length src [] with
  | none => none
  | some (ret, out) =>
      if ret ≠ 0 then some (ret, out)
      else if out.length ≥ src.length then
        if src.length + 1 > maxDst then some (-1, out) else some (0, 2 :: src)
      else some (0, out)

/-! ## rleDecompressSize -/

def rleDecompressSizeLoop (srcLen : Nat) : Nat → Bytes → Nat → Option Nat
  | _, [], outSize => some outSize
  | 0, _ :: _, _ => none
  | fuel + 1, bt :: rest, outSize =>
      if bt = 0 then
        match rest with
        | _ :: cnt :: rest => rleDecompressSizeLoop srcLen fuel rest (outSize + cnt.toNat)
        | _ => some 0
      else if bt = 1 then
        match rest with
        | litLen :: rest =>
            if litLen.toNat > rest.length then some 0
            else rleDecompressSizeLoop srcLen fuel (rest.drop litLen.toNat) (outSize + litLen.toNat)
        | [] => some 0
      else if bt = 2 then some (srcLen - 1)
      else some 0

def rleDecompressSize (src : Bytes) : Option Nat :=
  rleDecompressSizeLoop src.length src.length src 0

/-! ## rleDecompress -/

/-- The loop that fills by doubling what is already there. -/
def fillLoop (fillSize : Nat) : Nat → Bytes → Bytes
  | 0, filled => filled
  | fuel + 1, filled =>
      if filled.length < fillSize then
        let chunk := min filled.length (fillSize - filled.length)
        fillLoop fillSize fuel (filled ++ filled.take chunk)
      else filled

/-- The bytes written for a run; the first one is written in any case. -/
def fill (b : UInt8) (fillSize : Nat) : Bytes := fillLoop fillSize fillSize [b]

def rleDecompressLoop (src : Bytes) (dstLen : Nat) : Nat → Bytes → Bytes → Option (Int × Bytes)
  | _, [], out => some (0, out)
  | 0, _ :: _, _ => none
  | fuel + 1, bt :: rest, out =>
      if bt = 0 then
        match rest with
        | b :: cnt :: rest =>
            if out.length + cnt.toNat > dstLen then some (-1, out)
            else rleDecompressLoop src dstLen fuel rest (out ++ (fill b cnt.toNat).take cnt.toNat)
        | _ => some (-1, out)
      else if bt = 1 then
        match rest with
        | litLen :: rest =>
            if litLen.toNat > rest.length ∨ out.length + litLen.toNat > dstLen then some (-1, out)
            else rleDecompressLoop src dstLen fuel (rest.drop litLen.toNat)
              (out ++ rest.take litLen.toNat)
        | [] => some (-1, out)
      else if bt = 2 then
        if src.length - 1 > dstLen then some (-1, out) else some (0, src.drop 1)
      else some (-1, out)

def rleDecompress (src : Bytes) (dstLen : Nat) : Option (Int × Bytes) :=
  if src.length ≥ 1 ∧ src.head? = some 2 then
    let copyLen := src.length - 1
    if copyLen > dstLen then some (-1, []) else some (0, (src.drop 1).take copyLen)
  else rleDecompressLoop src dstLen src.length src []

/-! ## Tokens -/

/-- What one round of `rleCompress` writes. -/
inductive Token where
  | run (b : UInt8) (n : Nat)
  | lit (bytes : Bytes)
deriving DecidableEq, Repr

namespace Token

def bytes : Token → Bytes
  | run b n => [0, b, UInt8.ofNat n]
  | lit l => [1, UInt8.ofNat l.length] ++ l

/-- The bytes that the token stands for. -/
def expand : Token → Bytes
  | run b n => List.replicate n b
  | lit l => l

/-- The length fits into its byte. -/
def Valid (t : Token) : Prop := t.expand.length ≤ 255

end Token

theorem toNat_ofNat_length {n : Nat} (h : n ≤ 255) : (UInt8.ofNat n).toNat = n := by
  rw [UInt8.toNat_ofNat']
  omega

/-- Doubling fills the whole run. -/
theorem fillLoop_replicate (b : UInt8) {fillSize : Nat} (fuel : Nat) : ∀ {k : Nat}, 1 ≤ k →
    fillSize ≤ k + fuel →
    ∃ m ≥ fillSize, fillLoop fillSize fuel (List.replicate k b) = List.replicate m b := by
  induction fuel with
  | zero => intro k _ hle; exact ⟨k, hle, rfl⟩
  | succ fuel ih =>
      intro k hk hle
      rw [fillLoop, List.length_replicate]
      split_ifs with hlt
      · dsimp only
        rw [List.take_replicate, List.replicate_append_replicate]
        exact ih (by omega) (by omega)
      · exact ⟨k, by omega, rfl⟩

theorem take_fill (b : UInt8) (n : Nat) : (fill b n).take n = List.replicate n b := by
  obtain ⟨m, hm, hfill⟩ := fillLoop_replicate b n (k := 1) (Nat.le_refl 1) (by omega : n ≤ 1 + n)
  rw [fill, ← List.replicate_one, hfill, List.take_replicate, Nat.min_eq_left hm]

/-- One round of the decoder undoes one round of the coder. -/
theorem rleDecompressLoop_token (src : Bytes) {dstLen : Nat} (fuel : Nat) {t : Token}
    (ht : t.Valid) (rest : Bytes) {out : Bytes} (hfits : out.length + t.expand.length ≤ dstLen) :
    rleDecompressLoop src dstLen (fuel + 1) (t.bytes ++ rest) out =
      rleDecompressLoop src dstLen fuel rest (out ++ t.expand) := by
  cases t with
  | run b n =>
      have hn : (UInt8.ofNat n).toNat = n :=
        toNat_ofNat_length (by simpa [Token.Valid, Token.expand] using ht)
      have hle : ¬ out.length + n > dstLen := by
        rw [Token.expand, List.length_replicate] at hfits
        omega
      simp only [Token.bytes, Token.expand, List.cons_append, List.nil_append, rleDecompressLoop,
        if_pos, hn, if_neg hle, take_fill]
  | lit l =>
      have hn : (UInt8.ofNat l.length).toNat = l.length := toNat_ofNat_length ht
      have hle : ¬ (l.length > (l ++ rest).length ∨ out.length + l.length > dstLen) := by
        rw [Token.expand] at hfits
        rw [List.length_append]
        omega
      simp only [Token.bytes, Token.expand, List.cons_append, List.nil_append,
        rleDecompressLoop, hn]
      rw [if_neg (by decide), if_pos trivial, if_neg hle, List.drop_left, List.take_left]

theorem rleDecompressSizeLoop_token (srcLen fuel : Nat) {t : Token} (ht : t.Valid) (rest : Bytes)
    (outSize : Nat) :
    rleDecompressSizeLoop srcLen (fuel + 1) (t.bytes ++ rest) outSize =
      rleDecompressSizeLoop srcLen fuel rest (outSize + t.expand.length) := by
  cases t with
  | run b n =>
      have hn : (UInt8.ofNat n).toNat = n :=
        toNat_ofNat_length (by simpa [Token.Valid, Token.expand] using ht)
      simp only [Token.bytes, Token.expand, List.cons_append, List.nil_append,
        rleDecompressSizeLoop, if_pos, hn, List.length_replicate]
  | lit l =>
      have hn : (UInt8.ofNat l.length).toNat = l.length := toNat_ofNat_length ht
      have hle : ¬ l.length > (l ++ rest).length := by
        rw [List.length_append]
        omega
      simp only [Token.bytes, Token.expand, List.cons_append, List.nil_append,
        rleDecompressSizeLoop, hn]
      rw [if_neg (by decide), if_pos trivial, if_neg hle, List.drop_left]

theorem rleDecompressLoop_tokens (src : Bytes) {dstLen : Nat} {ts : List Token}
    (hts : ∀ t ∈ ts, t.Valid) : ∀ {fuel : Nat} {out : Bytes}, ts.length ≤ fuel →
    out.length + (ts.flatMap Token.expand).length ≤ dstLen →
    rleDecompressLoop src dstLen fuel (ts.flatMap Token.bytes) out =
      some (0, out ++ ts.flatMap Token.expand) := by
  induction ts with
  | nil =>
      intro fuel out _ _
      cases fuel <;> simp [rleDecompressLoop]
  | cons t ts ih =>
      intro fuel out hfuel hfits
      obtain ⟨fuel, rfl⟩ : ∃ k, fuel = k + 1 := ⟨fuel - 1, by rw [List.length_cons] at hfuel; omega⟩
      simp only [List.flatMap_cons, List.length_append, List.length_cons] at hfuel hfits ⊢
      rw [rleDecompressLoop_token src fuel (hts t List.mem_cons_self) _ (by omega),
        ih (fun u hu => hts u (List.mem_cons_of_mem t hu)) (by omega)
          (by rw [List.length_append]; omega), List.append_assoc]

theorem rleDecompressSizeLoop_tokens (srcLen : Nat) {ts : List Token}
    (hts : ∀ t ∈ ts, t.Valid) : ∀ {fuel outSize : Nat}, ts.length ≤ fuel →
    rleDecompressSizeLoop srcLen fuel (ts.flatMap Token.bytes) outSize =
      some (outSize + (ts.flatMap Token.expand).length) := by
  induction ts with
  | nil =>
      intro fuel outSize _
      cases fuel <;> simp [rleDecompressSizeLoop]
  | cons t ts ih =>
      intro fuel outSize hfuel
      obtain ⟨fuel, rfl⟩ : ∃ k, fuel = k + 1 := ⟨fuel - 1, by rw [List.length_cons] at hfuel; omega⟩
      simp only [List.flatMap_cons, List.length_append, List.length_cons] at hfuel ⊢
      rw [rleDecompressSizeLoop_token srcLen fuel (hts t List.mem_cons_self),
        ih (fun u hu => hts u (List.mem_cons_of_mem t hu)) (by omega), Nat.add_assoc]

theorem length_le_bytes (ts : List Token) : ts.length ≤ (ts.flatMap Token.bytes).length := by
  induction ts with
  | nil => exact Nat.le_refl 0
  | cons t ts ih =>
      have : 1 ≤ t.bytes.length := by cases t <;> simp [Token.bytes]
      simp only [List.flatMap_cons, List.length_append, List.length_cons]
      omega

/-- The tokens of the first round on `b :: tail` and the bytes that it goes on. -/
def round (b : UInt8) (tail : Bytes) : Token × Nat :=
  let runLen := runLoop b 1 tail
  if runLen ≥ 3 then (.run b runLen, runLen)
  else
    let litLen := litLoop 0 ((b :: tail).drop runLen)
    if litLen = 0 then (.lit [b], 1) else (.lit ((b :: tail).take litLen), runLen + litLen)

/-- The tokens of at most `fuel` rounds. -/
def tokens : Nat → Bytes → List Token
  | _, [] => []
  | 0, _ :: _ => []
  | fuel + 1, b :: tail =>
      (round b tail).1 :: tokens fuel ((b :: tail).drop (round b tail).2)

/-! ## Run lengths -/

/-- The length of the run that is counted. -/
theorem runLoop_eq (b : UInt8) (tail : Bytes) : ∀ {n r : Nat} {ns : List Nat},
    runLengths (b :: tail) = n :: ns → r ≤ 255 → runLoop b r tail = min (r + n - 1) 255 := by
  induction tail with
  | nil =>
      intro n r ns h hr
      obtain ⟨rfl, -⟩ := List.cons.inj h
      rw [runLoop]
      omega
  | cons x tail ih =>
      intro n r ns h hr
      rw [runLoop]
      by_cases hx : x = b
      · subst hx
        obtain ⟨m, ms, hms, hpos⟩ := runLengths_cons x tail
        rw [runLengths_same x tail hms] at h
        obtain ⟨rfl, -⟩ := List.cons.inj h
        by_cases hlt : r < 255
        · rw [if_pos ⟨rfl, hlt⟩, ih hms (by omega)]
          omega
        · rw [if_neg (fun h => hlt h.2)]
          omega
      · rw [runLengths_other tail hx] at h
        obtain ⟨rfl, -⟩ := List.cons.inj h
        rw [if_neg (fun h => hx h.1)]
        omega

/-- The bytes up to the next run of at least three. -/
def shortBytes (ns : List Nat) : Nat := (ns.takeWhile (· < 3)).sum

theorem shortBytes_long {n : Nat} (ns : List Nat) (h : 3 ≤ n) : shortBytes (n :: ns) = 0 := by
  rw [shortBytes, List.takeWhile_cons_of_neg (by simpa using h), List.sum_nil]

theorem shortBytes_short {n : Nat} (ns : List Nat) (h : n < 3) :
    shortBytes (n :: ns) = n + shortBytes ns := by
  rw [shortBytes, List.takeWhile_cons_of_pos (by simpa using h), List.sum_cons, shortBytes]

theorem litLoop_eq (rest : Bytes) : ∀ {l : Nat}, l ≤ 255 →
    litLoop l rest = min (l + shortBytes (runLengths rest)) 255 := by
  induction rest with
  | nil =>
      intro l hl
      rw [litLoop, runLengths, shortBytes, List.takeWhile_nil, List.sum_nil]
      omega
  | cons nb rest ih =>
      intro l hl
      obtain ⟨n, ns, hruns, hpos⟩ := runLengths_cons nb rest
      have hshrink := shrink_runLengths nb rest
      rw [hruns, shrink] at hshrink
      simp only [litLoop, runLoop_eq nb rest hruns (by omega : (1 : Nat) ≤ 255)]
      rw [hruns]
      by_cases hlt : l < 255
      · rw [if_pos hlt]
        by_cases hlong : 3 ≤ n
        · rw [if_pos (by omega), shortBytes_long ns hlong]
          omega
        · rw [if_neg (by omega), ih (by omega), ← hshrink, shortBytes_short ns (by omega)]
          split_ifs with hone
          · congr 1
            omega
          · rw [shortBytes_short ns (by omega)]
            congr 1
            omega
      · rw [if_neg hlt]
        omega

/-- What one round takes off the front of the runs: the bytes it writes, the bytes it goes
on and the bytes among these that it does not write. -/
structure Stretch where
  coded : Nat
  consumed : Nat
  lost : Nat
deriving DecidableEq, Repr

def stretch (n : Nat) (ns : List Nat) : Stretch :=
  if 3 ≤ n then ⟨3, min n 255, 0⟩
  else if shortBytes ns = 0 then ⟨3, 1, 0⟩
  else ⟨2 + min (shortBytes ns) 255, n + min (shortBytes ns) 255, n⟩

theorem one_le_consumed (n : Nat) (ns : List Nat) : 1 ≤ (stretch n ns).consumed := by
  rw [stretch]
  split_ifs <;> dsimp only <;> omega

/-- The runs behind the first round. -/
def runsLeft (n : Nat) (ns : List Nat) : List Nat := shrink^[(stretch n ns).consumed] (n :: ns)

theorem weight_runsLeft (n : Nat) (ns : List Nat) : weight (runsLeft n ns) < weight (n :: ns) :=
  weight_iterate_lt (List.cons_ne_nil n ns) (one_le_consumed n ns)

/-- The length of all tokens. -/
def codedLength : List Nat → Nat
  | [] => 0
  | n :: ns => (stretch n ns).coded + codedLength (runsLeft n ns)
termination_by ns => weight ns
decreasing_by exact weight_runsLeft n ns

/-- The bytes that no token holds. -/
def lostBytes : List Nat → Nat
  | [] => 0
  | n :: ns => (stretch n ns).lost + lostBytes (runsLeft n ns)
termination_by ns => weight ns
decreasing_by exact weight_runsLeft n ns

theorem take_run {b : UInt8} (tail : Bytes) : ∀ {n k : Nat} {ns : List Nat},
    runLengths (b :: tail) = n :: ns → k ≤ n → (b :: tail).take k = List.replicate k b := by
  induction tail with
  | nil =>
      intro n k ns h hk
      obtain ⟨rfl, -⟩ := List.cons.inj h
      rcases Nat.le_one_iff_eq_zero_or_eq_one.mp hk with rfl | rfl <;> rfl
  | cons x tail ih =>
      intro n k ns h hk
      cases k with
      | zero => rfl
      | succ k =>
          rw [List.take_succ_cons, List.replicate_succ]
          congr 1
          by_cases hx : x = b
          · subst hx
            obtain ⟨m, ms, hms, -⟩ := runLengths_cons x tail
            rw [runLengths_same x tail hms] at h
            obtain ⟨rfl, -⟩ := List.cons.inj h
            exact ih hms (by omega)
          · rw [runLengths_other tail hx] at h
            obtain ⟨rfl, -⟩ := List.cons.inj h
            obtain rfl : k = 0 := by omega
            rfl

theorem shortBytes_le (ns : List Nat) : shortBytes ns ≤ ns.sum := by
  induction ns with
  | nil => exact Nat.le_refl 0
  | cons n ns ih =>
      rw [List.sum_cons]
      by_cases hlong : 3 ≤ n
      · rw [shortBytes_long ns hlong]
        exact Nat.zero_le _
      · rw [shortBytes_short ns (by omega)]
        omega

/-- A round takes the stretch that the runs give off the front. -/
theorem round_spec {b : UInt8} {tail : Bytes} {n : Nat} {ns : List Nat}
    (h : runLengths (b :: tail) = n :: ns) :
    (round b tail).1.bytes.length = (stretch n ns).coded ∧
      (round b tail).2 = (stretch n ns).consumed ∧
      (round b tail).1.expand.length + (stretch n ns).lost = (stretch n ns).consumed ∧
      ((stretch n ns).lost = 0 →
        (round b tail).1.expand = (b :: tail).take (stretch n ns).consumed) ∧
      (round b tail).1.Valid ∧ (stretch n ns).consumed ≤ (b :: tail).length := by
  have hpos := runLengths_pos (b :: tail) n (by rw [h]; exact List.mem_cons_self)
  have hsum := sum_runLengths (b :: tail)
  have hshort := shortBytes_le ns
  rw [h, List.sum_cons] at hsum
  have hrun : runLoop b 1 tail = min n 255 := by
    rw [runLoop_eq b tail h (by omega)]
    congr 1
    omega
  rw [round, stretch, hrun]
  by_cases hlong : 3 ≤ n
  · dsimp only
    rw [if_pos (by omega), if_pos hlong]
    refine ⟨rfl, rfl, by simp [Token.expand], fun _ => ?_, ?_, by dsimp only; omega⟩
    · exact (take_run tail h (by omega)).symm
    · simp [Token.Valid, Token.expand]
  · have hlit : litLoop 0 ((b :: tail).drop (min n 255)) = min (shortBytes ns) 255 := by
      rw [litLoop_eq _ (by omega), runLengths_drop, h, Nat.min_eq_left (show n ≤ 255 by omega),
        iterate_shrink_eq ns hpos, Nat.zero_add]
    dsimp only
    rw [if_neg (by omega), if_neg hlong, hlit]
    by_cases hnone : shortBytes ns = 0
    · rw [if_pos hnone, if_pos (by omega)]
      refine ⟨rfl, rfl, rfl, fun _ => rfl, by simp [Token.Valid, Token.expand], ?_⟩
      simp
    · rw [if_neg hnone, if_neg (by omega)]
      have hlen :
          ((b :: tail).take (min (shortBytes ns) 255)).length = min (shortBytes ns) 255 := by
        rw [List.length_take]
        omega
      refine ⟨?_, ?_, ?_, ?_, ?_, by dsimp only; omega⟩
      · simp only [Token.bytes, List.length_append, hlen]
        rfl
      · dsimp only
        omega
      · simp only [Token.expand, hlen]
        omega
      · intro hzero
        dsimp only at hzero
        omega
      · rw [Token.Valid, Token.expand, hlen]
        omega

/-- The tokens of a whole input, by its runs. -/
theorem tokens_spec (fuel : Nat) : ∀ {rest : Bytes}, rest.length ≤ fuel →
    ((tokens fuel rest).flatMap Token.bytes).length = codedLength (runLengths rest) ∧
      ((tokens fuel rest).flatMap Token.expand).length + lostBytes (runLengths rest) = rest.length ∧
      (lostBytes (runLengths rest) = 0 → (tokens fuel rest).flatMap Token.expand = rest) ∧
      ∀ t ∈ tokens fuel rest, t.Valid := by
  induction fuel with
  | zero =>
      intro rest hfuel
      obtain rfl : rest = [] := List.length_eq_zero_iff.mp (by omega)
      simp [tokens, runLengths, codedLength, lostBytes]
  | succ fuel ih =>
      intro rest hfuel
      cases rest with
      | nil => simp [tokens, runLengths, codedLength, lostBytes]
      | cons b tail =>
          obtain ⟨n, ns, hruns, -⟩ := runLengths_cons b tail
          obtain ⟨hcoded, hnext, hlength, hwhole, hvalid, hle⟩ := round_spec hruns
          have hpos := one_le_consumed n ns
          have hleft : runLengths ((b :: tail).drop (round b tail).2) = runsLeft n ns := by
            rw [runLengths_drop, hruns, hnext, runsLeft]
          have hshort : ((b :: tail).drop (round b tail).2).length ≤ fuel := by
            rw [List.length_drop]
            omega
          obtain ⟨ihcoded, ihlength, ihwhole, ihvalid⟩ := ih hshort
          rw [hleft] at ihcoded ihlength ihwhole
          rw [hruns, codedLength, lostBytes]
          simp only [tokens, List.flatMap_cons, List.length_append]
          refine ⟨by rw [hcoded, ihcoded], ?_, ?_, ?_⟩
          · rw [List.length_drop] at ihlength
            omega
          · intro hzero
            rw [hwhole (by omega), ihwhole (by omega), hnext, List.take_append_drop]
          · intro t ht
            rcases List.mem_cons.mp ht with rfl | ht
            · exact hvalid
            · exact ihvalid t ht

/-! ## The coder -/

theorem litLoop_le (rest : Bytes) : ∀ l, litLoop l rest ≤ l + rest.length := by
  induction rest with
  | nil => intro l; exact Nat.le_refl l
  | cons nb rest ih =>
      intro l
      have := ih (l + 1)
      simp only [litLoop, List.length_cons]
      split_ifs <;> omega

theorem rleCompressLoop_round (maxDst fuel : Nat) (b : UInt8) (tail out : Bytes) :
    rleCompressLoop maxDst (fuel + 1) (b :: tail) out =
      if out.length + (round b tail).1.bytes.length > maxDst then some (-1, out)
      else rleCompressLoop maxDst fuel ((b :: tail).drop (round b tail).2)
        (out ++ (round b tail).1.bytes) := by
  rw [rleCompressLoop, round]
  dsimp only
  by_cases hrun : runLoop b 1 tail ≥ 3
  · rw [if_pos hrun, if_pos hrun]
    rfl
  · rw [if_neg hrun, if_neg hrun]
    have hle := litLoop_le ((b :: tail).drop (runLoop b 1 tail)) 0
    rw [Nat.zero_add, List.length_drop] at hle
    by_cases hnone : litLoop 0 ((b :: tail).drop (runLoop b 1 tail)) = 0
    · simp only [if_pos hnone]
      rfl
    · simp only [if_neg hnone, Token.bytes, List.length_append, List.length_take]
      rw [Nat.min_eq_left (by omega), ← Nat.add_assoc]
      rfl

/-- With enough room in `dst` the coder writes the tokens one after the other. -/
theorem rleCompressLoop_tokens {maxDst : Nat} (fuel : Nat) : ∀ {rest out : Bytes},
    rest.length ≤ fuel → out.length + ((tokens fuel rest).flatMap Token.bytes).length ≤ maxDst →
    rleCompressLoop maxDst fuel rest out =
      some (0, out ++ (tokens fuel rest).flatMap Token.bytes) := by
  induction fuel with
  | zero =>
      intro rest out hfuel _
      obtain rfl : rest = [] := List.length_eq_zero_iff.mp (by omega)
      simp [rleCompressLoop, tokens]
  | succ fuel ih =>
      intro rest out hfuel hfits
      cases rest with
      | nil => simp [rleCompressLoop, tokens]
      | cons b tail =>
          obtain ⟨n, ns, hruns, -⟩ := runLengths_cons b tail
          obtain ⟨-, hnext, -⟩ := round_spec hruns
          have hpos := one_le_consumed n ns
          simp only [tokens, List.flatMap_cons, List.length_append] at hfits ⊢
          have hshort : ((b :: tail).drop (round b tail).2).length ≤ fuel := by
            rw [List.length_drop]
            omega
          rw [rleCompressLoop_round, if_neg (by omega),
            ih hshort (by rw [List.length_append]; omega), List.append_assoc]

/-! ## What is lost -/

/-- No run whose last piece has one or two bytes is followed by a run of one or two bytes. -/
def Intact (ns : List Nat) : Prop :=
  ns.IsChain fun n m => n % 255 = 0 ∨ 3 ≤ n % 255 ∨ 3 ≤ m

instance (ns : List Nat) : Decidable (Intact ns) := inferInstanceAs (Decidable (List.IsChain _ ns))

theorem shortBytes_eq_zero {ns : List Nat} (hpos : ∀ n ∈ ns, 1 ≤ n) :
    shortBytes ns = 0 ↔ ∀ m ∈ ns.head?, 3 ≤ m := by
  cases ns with
  | nil => simp [shortBytes]
  | cons n ns =>
      have := hpos n List.mem_cons_self
      by_cases hlong : 3 ≤ n
      · simp [shortBytes_long ns hlong, hlong]
      · rw [shortBytes_short ns (by omega)]
        simp only [List.head?_cons, Option.mem_some_iff, forall_eq']
        omega

theorem intact_cons {n : Nat} {ns : List Nat} :
    Intact (n :: ns) ↔ (∀ m ∈ ns.head?, n % 255 = 0 ∨ 3 ≤ n % 255 ∨ 3 ≤ m) ∧ Intact ns := by
  cases ns with
  | nil => simp [Intact]
  | cons m ns => simp [Intact]

/-- The runs behind a round that takes no more than the first run. -/
theorem runsLeft_of_le {n : Nat} {ns : List Nat} (hn : (stretch n ns).consumed ≤ n) :
    runsLeft n ns =
      if (stretch n ns).consumed = n then ns else (n - (stretch n ns).consumed) :: ns := by
  have hpos := one_le_consumed n ns
  rw [runsLeft]
  split_ifs with heq
  · rw [heq]
    exact iterate_shrink_eq ns (by omega)
  · exact iterate_shrink_lt ns (by omega)

/-- A round that loses nothing leaves runs that are intact exactly when all are. -/
theorem intact_runsLeft {n : Nat} {ns : List Nat} (hn : 1 ≤ n) (hpos : ∀ m ∈ ns, 1 ≤ m) :
    Intact (n :: ns) ↔ (stretch n ns).lost = 0 ∧ Intact (runsLeft n ns) := by
  by_cases hlong : 3 ≤ n
  · have hs : stretch n ns = ⟨3, min n 255, 0⟩ := by rw [stretch, if_pos hlong]
    rw [runsLeft_of_le (by rw [hs]; exact Nat.min_le_left n 255), hs]
    simp only [true_and]
    split_ifs with hall
    · rw [intact_cons]
      refine and_iff_right fun m _ => ?_
      omega
    · rw [intact_cons, intact_cons, Nat.min_eq_right (by omega),
        show (n - 255) % 255 = n % 255 by omega]
  · by_cases hnone : shortBytes ns = 0
    · have hhead := (shortBytes_eq_zero hpos).mp hnone
      have hs : stretch n ns = ⟨3, 1, 0⟩ := by rw [stretch, if_neg hlong, if_pos hnone]
      rw [runsLeft_of_le (by rw [hs]; exact hn), hs]
      simp only [true_and]
      have hok : ∀ k, ∀ m ∈ ns.head?, k % 255 = 0 ∨ 3 ≤ k % 255 ∨ 3 ≤ m :=
        fun _ m hm => .inr (.inr (hhead m hm))
      split_ifs with hone
      · rw [intact_cons, and_iff_right (hok n)]
      · rw [intact_cons, intact_cons, and_iff_right (hok n), and_iff_right (hok (n - 1))]
    · have hs : (stretch n ns).lost = n := by rw [stretch, if_neg hlong, if_neg hnone]
      refine iff_of_false (fun h => ?_) (fun h => by omega)
      refine hnone ((shortBytes_eq_zero hpos).mpr fun m hm => ?_)
      rcases (intact_cons.mp h).1 m hm with h0 | h3 | h3
      · omega
      · omega
      · exact h3

theorem lostBytes_eq_zero (rest : Bytes) :
    lostBytes (runLengths rest) = 0 ↔ Intact (runLengths rest) := by
  induction hk : rest.length using Nat.strong_induction_on generalizing rest with
  | _ k ih =>
      cases rest with
      | nil => simp [runLengths, lostBytes, Intact]
      | cons b tail =>
          obtain ⟨n, ns, hruns, hn⟩ := runLengths_cons b tail
          have hpos : ∀ m ∈ ns, 1 ≤ m := fun m hm =>
            runLengths_pos (b :: tail) m (by rw [hruns]; exact List.mem_cons_of_mem n hm)
          have hone := one_le_consumed n ns
          have hleft : runLengths ((b :: tail).drop (stretch n ns).consumed) = runsLeft n ns := by
            rw [runLengths_drop, hruns, runsLeft]
          have hrest := ih _ (by rw [List.length_drop]; rw [List.length_cons] at hk ⊢; omega)
            ((b :: tail).drop (stretch n ns).consumed) rfl
          rw [hleft] at hrest
          rw [hruns, lostBytes, intact_runsLeft hn hpos, ← hrest]
          omega

/-- A short run before a long one or at the end is coded byte by byte. -/
theorem codedLength_short {n : Nat} {ns : List Nat} (hn : 1 ≤ n) (hshort : n < 3)
    (hnone : shortBytes ns = 0) : codedLength (n :: ns) = 3 * n + codedLength ns := by
  have hs : ∀ k < 3, stretch k ns = ⟨3, 1, 0⟩ := by
    intro k hk
    rw [stretch, if_neg (by omega), if_pos hnone]
  have hone : codedLength (1 :: ns) = 3 + codedLength ns := by
    rw [codedLength, runsLeft, hs 1 (by omega)]
    rfl
  obtain rfl | rfl : n = 1 ∨ n = 2 := by omega
  · exact hone
  · rw [codedLength, runsLeft, hs 2 (by omega)]
    change 3 + codedLength (1 :: ns) = _
    omega

/-- The tokens of an input are never much longer than twice the input. -/
theorem codedLength_le (rest : Bytes) :
    codedLength (runLengths rest) ≤ 2 * rest.length + 2 ∧
      (rest ≠ [] → (∀ n ∈ (runLengths rest).head?, 3 ≤ n) →
        codedLength (runLengths rest) + 1 ≤ 2 * rest.length) := by
  induction hk : rest.length using Nat.strong_induction_on generalizing rest with
  | _ k ih =>
      cases rest with
      | nil => simp [runLengths, codedLength]
      | cons b tail =>
          obtain ⟨n, ns, hruns, hn⟩ := runLengths_cons b tail
          obtain ⟨-, -, -, -, -, hle⟩ := round_spec hruns
          have hone := one_le_consumed n ns
          have hleft : runLengths ((b :: tail).drop (stretch n ns).consumed) = runsLeft n ns := by
            rw [runLengths_drop, hruns, runsLeft]
          have hrest := (ih _ (by rw [List.length_drop]; omega)
            ((b :: tail).drop (stretch n ns).consumed) rfl).1
          rw [hleft, List.length_drop, hk] at hrest
          rw [hruns]
          by_cases hlong : 3 ≤ n
          · rw [codedLength]
            rw [stretch, if_pos hlong] at hrest hle ⊢
            dsimp only at hrest hle ⊢
            omega
          · have hhead : (∀ m ∈ (n :: ns).head?, 3 ≤ m) → False := fun h => hlong (h n rfl)
            refine ⟨?_, fun _ h => (hhead h).elim⟩
            by_cases hnone : shortBytes ns = 0
            · rw [codedLength_short hn (by omega) hnone]
              have hpos : ∀ m ∈ ns, 1 ≤ m := fun m hm =>
                runLengths_pos (b :: tail) m (by rw [hruns]; exact List.mem_cons_of_mem n hm)
              have hbehind : runLengths ((b :: tail).drop n) = ns := by
                rw [runLengths_drop, hruns, iterate_shrink_eq ns hn]
              have hsum := sum_runLengths (b :: tail)
              rw [hruns, List.sum_cons] at hsum
              obtain ⟨-, hlater⟩ := ih _ (by rw [List.length_drop]; omega) ((b :: tail).drop n) rfl
              rw [hbehind, List.length_drop, hk] at hlater
              cases hns : ns with
              | nil => rw [codedLength]; omega
              | cons m ms =>
                  have hne : (b :: tail).drop n ≠ [] := by
                    intro hnil
                    rw [hnil, hns] at hbehind
                    cases hbehind
                  have := hlater hne ((shortBytes_eq_zero hpos).mp hnone)
                  rw [← hns]
                  omega
            · rw [codedLength]
              rw [stretch, if_neg hlong, if_neg hnone] at hrest hle ⊢
              dsimp only at hrest hle ⊢
              omega

/-! ## The round trip -/

/-- Coding the input and decoding the result gives the input back. -/
def RoundTrips (x : Bytes) : Prop :=
  ∀ y, rleCompress x (x.length * 2 + 64) = some (0, y) →
    rleDecompressSize y = some x.length ∧ rleDecompress y x.length = some (0, x)

/-- The room that `process` gives is enough; an input that does not get shorter is stored. -/
theorem rleCompress_eq (x : Bytes) :
    rleCompress x (x.length * 2 + 64) = some (0,
      if codedLength (runLengths x) ≥ x.length then 2 :: x
      else (tokens x.length x).flatMap Token.bytes) := by
  obtain ⟨hcoded, -⟩ := tokens_spec x.length (Nat.le_refl x.length)
  have hroom := (codedLength_le x).1
  rw [rleCompress, rleCompressLoop_tokens x.length (Nat.le_refl _)
    (by rw [hcoded, List.length_nil]; omega)]
  simp only [List.nil_append, hcoded, ne_eq, not_true_eq_false, if_false]
  split_ifs with hstored hfull
  · omega
  · rfl
  · rfl

theorem rle_stored (x : Bytes) :
    rleDecompressSize (2 :: x) = some x.length ∧ rleDecompress (2 :: x) x.length = some (0, x) := by
  constructor
  · simp [rleDecompressSize, rleDecompressSizeLoop]
  · simp [rleDecompress]

/-- An input that is coded comes back exactly when no round of the coder loses bytes. -/
theorem rle_coded (x : Bytes) :
    (rleDecompressSize ((tokens x.length x).flatMap Token.bytes) = some x.length ∧
      rleDecompress ((tokens x.length x).flatMap Token.bytes) x.length = some (0, x)) ↔
      Intact (runLengths x) := by
  obtain ⟨-, hlength, hwhole, hvalid⟩ := tokens_spec x.length (Nat.le_refl x.length)
  rw [rleDecompressSize, rleDecompressSizeLoop_tokens _ hvalid (length_le_bytes _), Nat.zero_add,
    ← lostBytes_eq_zero]
  constructor
  · rintro ⟨hsize, -⟩
    have := Option.some.inj hsize
    omega
  · intro hnone
    have hexpand := hwhole hnone
    refine ⟨by rw [hexpand], ?_⟩
    rw [rleDecompress, if_neg ?_, rleDecompressLoop_tokens _ hvalid (length_le_bytes _)
      (by rw [hexpand, List.length_nil]; omega), hexpand, List.nil_append]
    rintro ⟨-, hhead⟩
    cases hts : tokens x.length x with
    | nil => rw [hts] at hhead; cases hhead
    | cons t ts =>
        rw [hts, List.flatMap_cons] at hhead
        cases t <;> simp [Token.bytes] at hhead

/-- The round trip holds exactly for the inputs that are stored because their tokens are not
shorter, and for those in which no run whose last piece has one or two bytes is followed by
a run of one or two bytes. -/
theorem rle_roundTrips_iff (x : Bytes) :
    RoundTrips x ↔ x.length ≤ codedLength (runLengths x) ∨ Intact (runLengths x) := by
  rw [RoundTrips, rleCompress_eq]
  simp only [Option.some.injEq, Prod.mk.injEq, true_and, forall_eq']
  by_cases hstored : codedLength (runLengths x) ≥ x.length
  · rw [if_pos hstored]
    exact iff_of_true (rle_stored x) (.inl hstored)
  · rw [if_neg hstored, rle_coded]
    exact ⟨.inr, fun h => h.resolve_left hstored⟩

/-- Two single bytes before a run of five: the second one is lost. -/
theorem rle_loses_byte :
    ¬ ∀ x : Bytes, 1 ≤ x.length → x.length ≤ 131072 → RoundTrips x := by
  intro hall
  have hcode : rleCompress [1, 2, 3, 3, 3, 3, 3] 78 = some (0, [1, 1, 1, 0, 3, 5]) := by decide
  have hback := hall [1, 2, 3, 3, 3, 3, 3] (by decide) (by decide) _ hcode
  revert hback
  decide

end PipelineTunnel.Modules.Rle
