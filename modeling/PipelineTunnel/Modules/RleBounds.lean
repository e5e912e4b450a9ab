import PipelineTunnel.Modules.Rle

/-!
# Where the run-length coder writes

`process` gives `rleDecompress` a buffer of exactly the size that `rleDecompressSize` has
found, and `rleCompress` one of twice the input and 64 bytes more. Both procedures test the
room before they write, with one gap: the first byte of a run is written before its length is
looked at, so a run of length zero behind the last byte of the output is written outside.

## Implementation notes

The functions named `Writes` follow the procedures of the same name and list the indices of
`dst` in the order in which they are written.
-/

namespace PipelineTunnel.Modules.Rle

open Runs

/-! ## rleDecompress -/

/-- The copies of the loop that fills by doubling. -/
def fillLoopWrites (start fillSize : Nat) : Nat → Nat → List Nat
  | 0, _ => []
  | fuel + 1, filled =>
      if filled < fillSize then
        let chunk := min filled (fillSize - filled)
        List.range' (start + filled) chunk ++ fillLoopWrites start fillSize fuel (filled + chunk)
      else []

def fillWrites (start fillSize : Nat) : List Nat :=
  start :: fillLoopWrites start fillSize fillSize 1

def rleDecompressLoopWrites (src : Bytes) (dstLen : Nat) : Nat → Bytes → Nat → List Nat
  | _, [], _ => []
  | 0, _ :: _, _ => []
  | fuel + 1, bt :: rest, o =>
      if bt = 0 then
        match rest with
        | _ :: cnt :: rest =>
            if o + cnt.toNat > dstLen then []
            else fillWrites o cnt.toNat ++
              rleDecompressLoopWrites src dstLen fuel rest (o + cnt.toNat)
        | _ => []
      else if bt = 1 then
        match rest with
        | litLen :: rest =>
            if litLen.toNat > rest.length ∨ o + litLen.toNat > dstLen then []
            else List.range' o litLen.toNat ++
              rleDecompressLoopWrites src dstLen fuel (rest.drop litLen.toNat) (o + litLen.toNat)
        | [] => []
      else if bt = 2 then
        if src.length - 1 > dstLen then [] else List.range (src.length - 1)
      else []

def rleDecompressWrites (src : Bytes) (dstLen : Nat) : List Nat :=
  if src.length ≥ 1 ∧ src.head? = some 2 then
    if src.length - 1 > dstLen then [] else List.range (src.length - 1)
  else rleDecompressLoopWrites src dstLen src.length src 0

/-- Every write is inside the buffer, and a successful call has filled it. -/
structure StaysInside (src : Bytes) (n : Nat) : Prop where
  writes : ∀ i ∈ rleDecompressWrites src n, i < n
  result : ∃ ret out, rleDecompress src n = some (ret, out) ∧
    (ret = 0 ∧ out.length = n ∨ ret = -1)

/-- A run of length zero stands where the tokens before it have filled `n` bytes. -/
def EmptyRunAt (n : Nat) (src : Bytes) : Prop :=
  ∃ (ts : List Token) (b : UInt8) (rest : Bytes), (∀ t ∈ ts, t.Valid) ∧
    src = ts.flatMap Token.bytes ++ 0 :: b :: 0 :: rest ∧ (ts.flatMap Token.expand).length = n

/-! ## One token -/

/-- What can stand at the front of a coded stream: nothing, a token, the mark of a stored
input, or something else. -/
inductive Front : Bytes → Prop where
  | nil : Front []
  | token (t : Token) (ht : t.Valid) (rest : Bytes) : Front (t.bytes ++ rest)
  | raw (rest : Bytes) : Front (2 :: rest)
  | broken (bt : UInt8) (rest : Bytes) (hraw : bt ≠ 2) (hrun : bt = 0 → rest.length < 2)
      (hlit : bt = 1 → ∀ litLen tail, rest = litLen :: tail → tail.length < litLen.toNat) :
      Front (bt :: rest)

theorem front (rest : Bytes) : Front rest := by
  cases rest with
  | nil => exact .nil
  | cons bt rest =>
      by_cases hraw : bt = 2
      · subst hraw
        exact .raw rest
      · by_cases hrun : bt = 0
        · subst hrun
          cases rest with
          | nil => exact .broken 0 _ hraw (fun _ => by simp) (fun h => absurd h (by decide))
          | cons b rest =>
              cases rest with
              | nil => exact .broken 0 _ hraw (fun _ => by simp) (fun h => absurd h (by decide))
              | cons cnt tail =>
                  have ht : (Token.run b cnt.toNat).Valid := by
                    have := cnt.toNat_lt
                    rw [Token.Valid, Token.expand, List.length_replicate]
                    omega
                  have := Front.token _ ht tail
                  rwa [Token.bytes, UInt8.ofNat_toNat] at this
        · by_cases hlit : bt = 1
          · subst hlit
            cases rest with
            | nil =>
                refine .broken 1 _ hraw (fun h => absurd h (by decide)) fun _ l t heq => ?_
                exact absurd heq.symm (List.cons_ne_nil l t)
            | cons litLen tail =>
                by_cases hshort : tail.length < litLen.toNat
                · refine .broken 1 _ hraw (fun h => absurd h (by decide)) fun _ l t heq => ?_
                  obtain ⟨rfl, rfl⟩ := List.cons.inj heq
                  exact hshort
                · have hlen : (tail.take litLen.toNat).length = litLen.toNat := by
                    rw [List.length_take]
                    omega
                  have ht : (Token.lit (tail.take litLen.toNat)).Valid := by
                    have := litLen.toNat_lt
                    rw [Token.Valid, Token.expand, hlen]
                    omega
                  have := Front.token _ ht (tail.drop litLen.toNat)
                  rwa [Token.bytes, hlen, UInt8.ofNat_toNat, List.append_assoc,
                    List.take_append_drop] at this
          · exact .broken bt rest hraw (fun h => absurd h hrun) (fun h => absurd h hlit)

/-- The indices that a token is written to. -/
def Token.writes (o : Nat) : Token → List Nat
  | run _ n => fillWrites o n
  | lit l => List.range' o l.length

section Token

variable (src : Bytes) {dstLen : Nat} (fuel : Nat) {t : Token} (ht : t.Valid) (rest : Bytes)
include ht

theorem rleDecompressLoop_full {out : Bytes} (hfull : dstLen < out.length + t.expand.length) :
    rleDecompressLoop src dstLen (fuel + 1) (t.bytes ++ rest) out = some (-1, out) := by
  cases t with
  | run b n =>
      have hn : (UInt8.ofNat n).toNat = n :=
        toNat_ofNat_length (by simpa [Token.Valid, Token.expand] using ht)
      rw [Token.expand, List.length_replicate] at hfull
      simp only [Token.bytes, List.cons_append, List.nil_append, rleDecompressLoop, if_pos, hn]
      rw [if_pos hfull]
  | lit l =>
      have hn : (UInt8.ofNat l.length).toNat = l.length := toNat_ofNat_length ht
      rw [Token.expand] at hfull
      simp only [Token.bytes, List.cons_append, List.nil_append, rleDecompressLoop, hn]
      rw [if_neg (by decide), if_pos trivial, if_pos (.inr hfull)]

theorem rleDecompressLoopWrites_token {o : Nat} (hfits : o + t.expand.length ≤ dstLen) :
    rleDecompressLoopWrites src dstLen (fuel + 1) (t.bytes ++ rest) o =
      t.writes o ++ rleDecompressLoopWrites src dstLen fuel rest (o + t.expand.length) := by
  cases t with
  | run b n =>
      have hn : (UInt8.ofNat n).toNat = n :=
        toNat_ofNat_length (by simpa [Token.Valid, Token.expand] using ht)
      rw [Token.expand, List.length_replicate] at hfits ⊢
      simp only [Token.bytes, List.cons_append, List.nil_append, rleDecompressLoopWrites, if_pos,
        hn, Token.writes]
      rw [if_neg (by omega)]
  | lit l =>
      have hn : (UInt8.ofNat l.length).toNat = l.length := toNat_ofNat_length ht
      have hle : ¬ (l.length > (l ++ rest).length ∨ o + l.length > dstLen) := by
        rw [Token.expand] at hfits
        rw [List.length_append]
        omega
      simp only [Token.bytes, Token.expand, List.cons_append, List.nil_append,
        rleDecompressLoopWrites, hn, Token.writes]
      rw [if_neg (by decide), if_pos trivial, if_neg hle, List.drop_left]

theorem rleDecompressLoopWrites_full {o : Nat} (hfull : dstLen < o + t.expand.length) :
    rleDecompressLoopWrites src dstLen (fuel + 1) (t.bytes ++ rest) o = [] := by
  cases t with
  | run b n =>
      have hn : (UInt8.ofNat n).toNat = n :=
        toNat_ofNat_length (by simpa [Token.Valid, Token.expand] using ht)
      rw [Token.expand, List.length_replicate] at hfull
      simp only [Token.bytes, List.cons_append, List.nil_append, rleDecompressLoopWrites, if_pos,
        hn]
      rw [if_pos hfull]
  | lit l =>
      have hn : (UInt8.ofNat l.length).toNat = l.length := toNat_ofNat_length ht
      rw [Token.expand] at hfull
      simp only [Token.bytes, List.cons_append, List.nil_append, rleDecompressLoopWrites, hn]
      rw [if_neg (by decide), if_pos trivial, if_pos (.inr hfull)]

end Token

/-- Neither pass goes on where nothing can be read. -/
theorem broken_spec (src : Bytes) (dstLen fuel : Nat) {bt : UInt8} {rest : Bytes} (hraw : bt ≠ 2)
    (hrun : bt = 0 → rest.length < 2)
    (hlit : bt = 1 → ∀ litLen tail, rest = litLen :: tail → tail.length < litLen.toNat)
    (out : Bytes) (o : Nat) :
    rleDecompressLoop src dstLen (fuel + 1) (bt :: rest) out = some (-1, out) ∧
      rleDecompressLoopWrites src dstLen (fuel + 1) (bt :: rest) o = [] := by
  unfold rleDecompressLoop rleDecompressLoopWrites
  by_cases h0 : bt = 0
  · have hlt := hrun h0
    rw [if_pos h0, if_pos h0]
    cases rest with
    | nil => exact ⟨rfl, rfl⟩
    | cons b tail =>
        obtain rfl : tail = [] := by
          rw [List.length_cons] at hlt
          exact List.length_eq_zero_iff.mp (by omega)
        exact ⟨rfl, rfl⟩
  · rw [if_neg h0, if_neg h0]
    by_cases h1 : bt = 1
    · rw [if_pos h1, if_pos h1]
      cases rest with
      | nil => exact ⟨rfl, rfl⟩
      | cons litLen tail =>
          have hlt := hlit h1 litLen tail rfl
          dsimp only
          rw [if_pos (.inl hlt), if_pos (.inl hlt)]
          exact ⟨rfl, rfl⟩
    · rw [if_neg h1, if_neg h1, if_neg hraw, if_neg hraw]
      exact ⟨rfl, rfl⟩

/-- The mark of a stored input stands for the whole of it, wherever it is found. -/
theorem raw_spec (src : Bytes) (dstLen fuel : Nat) (rest out : Bytes) (o : Nat) :
    rleDecompressLoop src dstLen (fuel + 1) (2 :: rest) out =
        (if src.length - 1 > dstLen then some (-1, out) else some (0, src.drop 1)) ∧
      rleDecompressSizeLoop src.length (fuel + 1) (2 :: rest) o = some (src.length - 1) ∧
      rleDecompressLoopWrites src dstLen (fuel + 1) (2 :: rest) o =
        if src.length - 1 > dstLen then [] else List.range (src.length - 1) := by
  refine ⟨?_, ?_, ?_⟩
  · simp [rleDecompressLoop]
  · simp [rleDecompressSizeLoop]
  · simp [rleDecompressLoopWrites]

/-! ## The whole stream -/

/-- A fill stays inside its run, but for the first byte of an empty one. -/
theorem fillLoopWrites_lt (start fillSize fuel : Nat) : ∀ {filled : Nat},
    ∀ i ∈ fillLoopWrites start fillSize fuel filled, i < start + fillSize := by
  induction fuel with
  | zero => intro filled i hi; cases hi
  | succ fuel ih =>
      intro filled i hi
      rw [fillLoopWrites] at hi
      split_ifs at hi with hlt
      · rcases List.mem_append.mp hi with hi | hi
        · rw [List.mem_range'_1] at hi
          omega
        · exact ih i hi
      · cases hi

theorem Token.writes_lt (o : Nat) (t : Token) :
    ∀ i ∈ t.writes o, i < o + t.expand.length ∨ ∃ b, t = .run b 0 ∧ i = o := by
  intro i hi
  cases t with
  | run b n =>
      rw [Token.expand, List.length_replicate]
      rcases List.mem_cons.mp hi with rfl | hi
      · rcases Nat.eq_zero_or_pos n with rfl | hpos
        · exact .inr ⟨b, rfl, rfl⟩
        · exact .inl (by omega)
      · exact .inl (fillLoopWrites_lt _ _ _ i hi)
  | lit l =>
      rw [Token.writes, List.mem_range'_1] at hi
      exact .inl hi.2

theorem flatMap_concat_expand (ts : List Token) (t : Token) :
    ((ts ++ [t]).flatMap Token.expand).length =
      (ts.flatMap Token.expand).length + t.expand.length := by
  simp [List.flatMap_append]

/-- By induction on the rounds, with the tokens that have been read before the rest. -/
theorem rleDecompressLoopWrites_lt {src : Bytes} {n : Nat} (hempty : ¬ EmptyRunAt n src)
    (fuel : Nat) : ∀ (ts : List Token) {rest : Bytes}, (∀ t ∈ ts, t.Valid) →
    src = ts.flatMap Token.bytes ++ rest → (ts.flatMap Token.expand).length ≤ n →
    ∀ i ∈ rleDecompressLoopWrites src n fuel rest (ts.flatMap Token.expand).length, i < n := by
  induction fuel with
  | zero =>
      intro ts rest _ _ _ i hi
      cases rest <;> cases hi
  | succ fuel ih =>
      intro ts rest hts hsrc hle i hi
      cases front rest with
      | nil => cases hi
      | token t ht rest' =>
          by_cases hfits : (ts.flatMap Token.expand).length + t.expand.length ≤ n
          · rw [rleDecompressLoopWrites_token src fuel ht rest' hfits] at hi
            rcases List.mem_append.mp hi with hi | hi
            · rcases t.writes_lt _ i hi with hlt | ⟨b, rfl, rfl⟩
              · omega
              · refine Nat.lt_of_le_of_ne hle fun hfull => hempty ⟨ts, b, rest', hts, ?_, hfull⟩
                exact hsrc
            · rw [← flatMap_concat_expand] at hi
              refine ih (ts ++ [t]) ?_ ?_ ?_ i hi
              · intro u hu
                rcases List.mem_append.mp hu with hu | hu
                · exact hts u hu
                · rwa [List.mem_singleton.mp hu]
              · rw [hsrc]
                simp [List.flatMap_append]
              · rwa [flatMap_concat_expand]
          · rw [rleDecompressLoopWrites_full src fuel ht rest' (by omega)] at hi
            cases hi
      | raw rest' =>
          rw [(raw_spec src n fuel rest' [] _).2.2] at hi
          split_ifs at hi with hlong
          · cases hi
          · rw [List.mem_range] at hi
            omega
      | broken bt rest' hraw hrun hlit =>
          rw [(broken_spec src n fuel hraw hrun hlit [] _).2] at hi
          cases hi

/-- The second pass ends, and where it succeeds it has written what the first one counted. -/
theorem rleDecompressLoop_result (src : Bytes) (dstLen fuel : Nat) : ∀ {rest : Bytes} (out : Bytes),
    rest.length ≤ fuel → ∃ ret out', rleDecompressLoop src dstLen fuel rest out = some (ret, out') ∧
      (ret = 0 ∧ rleDecompressSizeLoop src.length fuel rest out.length = some out'.length ∨
        ret = -1) := by
  induction fuel with
  | zero =>
      intro rest out hfuel
      obtain rfl : rest = [] := List.length_eq_zero_iff.mp (by omega)
      exact ⟨0, out, rfl, .inl ⟨rfl, rfl⟩⟩
  | succ fuel ih =>
      intro rest out hfuel
      cases front rest with
      | nil => exact ⟨0, out, rfl, .inl ⟨rfl, rfl⟩⟩
      | token t ht rest' =>
          by_cases hfits : out.length + t.expand.length ≤ dstLen
          · have hbytes : 1 ≤ t.bytes.length := by cases t <;> simp [Token.bytes]
            rw [List.length_append] at hfuel
            rw [rleDecompressLoop_token src fuel ht rest' hfits,
              rleDecompressSizeLoop_token src.length fuel ht rest', ← List.length_append]
            exact ih _ (by omega)
          · exact ⟨-1, out, rleDecompressLoop_full src fuel ht rest' (by omega), .inr rfl⟩
      | raw rest' =>
          obtain ⟨hresult, hcount, -⟩ := raw_spec src dstLen fuel rest' out out.length
          rw [hresult, hcount]
          split_ifs
          · exact ⟨-1, out, rfl, .inr rfl⟩
          · exact ⟨0, src.drop 1, rfl, .inl ⟨rfl, by rw [List.length_drop]⟩⟩
      | broken bt rest' hraw hrun hlit =>
          exact ⟨-1, out, (broken_spec src dstLen fuel hraw hrun hlit out 0).1, .inr rfl⟩

/-- What the tokens before an empty run write comes first. -/
theorem rleDecompressLoopWrites_tokens (src : Bytes) (dstLen fuel : Nat) {ts : List Token}
    (hts : ∀ t ∈ ts, t.Valid) (rest : Bytes) : ∀ {o : Nat},
    o + (ts.flatMap Token.expand).length ≤ dstLen → ∃ before,
      rleDecompressLoopWrites src dstLen (ts.length + fuel) (ts.flatMap Token.bytes ++ rest) o =
        before ++ rleDecompressLoopWrites src dstLen fuel rest
          (o + (ts.flatMap Token.expand).length) := by
  induction ts with
  | nil =>
      intro o _
      exact ⟨[], by simp⟩
  | cons t ts ih =>
      intro o hfits
      simp only [List.flatMap_cons, List.length_append, List.length_cons] at hfits ⊢
      obtain ⟨before, hbefore⟩ := ih (fun u hu => hts u (List.mem_cons_of_mem t hu))
        (o := o + t.expand.length) (by omega)
      refine ⟨t.writes o ++ before, ?_⟩
      rw [show ts.length + 1 + fuel = ts.length + fuel + 1 by omega, List.append_assoc,
        rleDecompressLoopWrites_token src _ (hts t List.mem_cons_self) _ (by omega), hbefore,
        List.append_assoc, Nat.add_assoc]

/-- The decoder stays inside the buffer that its size pass asks for exactly when no empty run
comes after the last byte of the output. -/
theorem staysInside_iff {src : Bytes} {n : Nat} (hsize : rleDecompressSize src = some n)
    (hn : 0 < n) : StaysInside src n ↔ ¬ EmptyRunAt n src := by
  constructor
  · rintro hinside ⟨ts, b, rest, hts, hsrc, hlen⟩
    have hcount := length_le_bytes ts
    obtain ⟨fuel, hfuel⟩ : ∃ fuel, src.length = ts.length + (fuel + 1) := by
      refine ⟨src.length - ts.length - 1, ?_⟩
      have := congrArg List.length hsrc
      simp only [List.length_append, List.length_cons] at this
      omega
    have hhead : ¬ (src.length ≥ 1 ∧ src.head? = some 2) := by
      rintro ⟨-, hhead⟩
      rw [hsrc] at hhead
      cases ts with
      | nil => simp at hhead
      | cons t ts => cases t <;> simp [Token.bytes] at hhead
    obtain ⟨before, hbefore⟩ := rleDecompressLoopWrites_tokens src n (fuel + 1) hts
      (0 :: b :: 0 :: rest) (o := 0) (by omega)
    have hmem : n ∈ rleDecompressWrites src n := by
      rw [rleDecompressWrites, if_neg hhead, hfuel]
      nth_rewrite 2 [hsrc]
      rw [hbefore, Nat.zero_add, hlen]
      simp [rleDecompressLoopWrites, fillWrites]
    exact absurd (hinside.writes n hmem) (Nat.lt_irrefl n)
  · intro hempty
    by_cases hhead : src.length ≥ 1 ∧ src.head? = some 2
    · obtain ⟨x, rfl⟩ : ∃ x, src = 2 :: x := by
        cases src with
        | nil => simp at hhead
        | cons b x => exact ⟨x, by simpa using hhead.2⟩
      obtain rfl : x.length = n := by
        have := (rle_stored x).1
        rw [hsize] at this
        exact (Option.some.inj this).symm
      refine ⟨fun i hi => ?_, 0, x, (rle_stored x).2, .inl ⟨rfl, rfl⟩⟩
      simpa [rleDecompressWrites] using hi
    · constructor
      · rw [rleDecompressWrites, if_neg hhead]
        exact rleDecompressLoopWrites_lt hempty src.length []
          (fun t ht => absurd ht List.not_mem_nil) rfl (Nat.zero_le n)
      · rw [rleDecompress, if_neg hhead]
        obtain ⟨ret, out, hresult, hret⟩ :=
          rleDecompressLoop_result src n src.length [] (Nat.le_refl src.length)
        refine ⟨ret, out, hresult, ?_⟩
        rcases hret with ⟨rfl, hcount⟩ | rfl
        · rw [List.length_nil, ← rleDecompressSize, hsize] at hcount
          exact .inl ⟨rfl, (Option.some.inj hcount).symm⟩
        · exact .inr rfl

/-- A single run of three. -/
theorem staysInside_run :
    rleDecompressSize [0, 7, 3] = some 3 ∧ 0 < 3 ∧ StaysInside [0, 7, 3] 3 := by
  have hsize : rleDecompressSize [0, 7, 3] = some 3 := by decide
  refine ⟨hsize, by decide, (staysInside_iff hsize (by decide)).mpr ?_⟩
  rintro ⟨ts, b, rest, -, hsrc, hlen⟩
  have hcount := length_le_bytes ts
  have hthree := congrArg List.length hsrc
  simp only [List.length_append, List.length_cons, List.length_nil] at hthree
  obtain rfl : ts = [] := List.length_eq_zero_iff.mp (by omega)
  cases hlen

/-- One literal byte and an empty run: the second byte is written to a buffer of one. -/
theorem staysInside_empty_run :
    rleDecompressSize [1, 1, 9, 0, 5, 0] = some 1 ∧
      rleDecompressWrites [1, 1, 9, 0, 5, 0] 1 = [0, 1] ∧
      ¬ StaysInside [1, 1, 9, 0, 5, 0] 1 := by
  have hwrites : rleDecompressWrites [1, 1, 9, 0, 5, 0] 1 = [0, 1] := by decide
  refine ⟨by decide, hwrites, fun hinside => ?_⟩
  exact absurd (hinside.writes 1 (by rw [hwrites]; decide)) (Nat.lt_irrefl 1)

/-! ## rleCompress -/

def rleCompressLoopWrites (maxDst : Nat) : Nat → Bytes → Nat → List Nat
  | _, [], _ => []
  | 0, _ :: _, _ => []
  | fuel + 1, b :: tail, o =>
      let runLen := runLoop b 1 tail
      if runLen ≥ 3 then
        if o + 3 > maxDst then []
        else List.range' o 3 ++
          rleCompressLoopWrites maxDst fuel ((b :: tail).drop runLen) (o + 3)
      else
        let litLen := litLoop 0 ((b :: tail).drop runLen)
        let next := if litLen = 0 then 1 else runLen + litLen
        let litLen := if litLen = 0 then 1 else litLen
        if o + 2 + litLen > maxDst then []
        else List.range' o (2 + litLen) ++
          rleCompressLoopWrites maxDst fuel ((b :: tail).drop next) (o + 2 + litLen)

/-- The tokens, and the stored input over them when they are not shorter. -/
def rleCompressWrites (src : Bytes) (maxDst : Nat) : List Nat :=
  rleCompressLoopWrites maxDst src.length src 0 ++
    match rleCompressLoop maxDst src.length src [] with
    | some (ret, out) =>
        if ret = 0 ∧ out.length ≥ src.length ∧ src.length + 1 ≤ maxDst then
          List.range (src.length + 1)
        else []
    | none => []

/-- A round writes its token behind what is there. -/
theorem rleCompressLoopWrites_round (maxDst fuel : Nat) (b : UInt8) (tail : Bytes) (o : Nat) :
    rleCompressLoopWrites maxDst (fuel + 1) (b :: tail) o =
      if o + (round b tail).1.bytes.length > maxDst then []
      else List.range' o (round b tail).1.bytes.length ++
        rleCompressLoopWrites maxDst fuel ((b :: tail).drop (round b tail).2)
          (o + (round b tail).1.bytes.length) := by
  rw [rleCompressLoopWrites, round]
  dsimp only
  by_cases hrun : runLoop b 1 tail ≥ 3
  · rw [if_pos hrun, if_pos hrun]
    rfl
  · rw [if_neg hrun, if_neg hrun]
    have hle := litLoop_le ((b :: tail).drop (runLoop b 1 tail)) 0
    rw [Nat.zero_add, List.length_drop] at hle
    by_cases hnone : litLoop 0 ((b :: tail).drop (runLoop b 1 tail)) = 0
    · simp only [if_pos hnone]
      rfl
    · simp only [if_neg hnone, Token.bytes, List.length_append, List.length_take]
      rw [Nat.min_eq_left (by omega), ← Nat.add_assoc]
      rfl

/-- The coder tests the room for every token. -/
theorem rleCompressLoopWrites_lt (maxDst fuel : Nat) : ∀ {rest : Bytes} {o : Nat},
    ∀ i ∈ rleCompressLoopWrites maxDst fuel rest o, i < maxDst := by
  induction fuel with
  | zero =>
      intro rest o i hi
      cases rest <;> cases hi
  | succ fuel ih =>
      intro rest o i hi
      cases rest with
      | nil => cases hi
      | cons b tail =>
          rw [rleCompressLoopWrites_round] at hi
          split_ifs at hi with hfull
          · cases hi
          · rcases List.mem_append.mp hi with hi | hi
            · rw [List.mem_range'_1] at hi
              omega
            · exact ih i hi

theorem rleCompressWrites_lt (src : Bytes) (maxDst : Nat) :
    ∀ i ∈ rleCompressWrites src maxDst, i < maxDst := by
  intro i hi
  rcases List.mem_append.mp hi with hi | hi
  · exact rleCompressLoopWrites_lt maxDst src.length i hi
  · split at hi
    · split_ifs at hi with hstored
      · rw [List.mem_range] at hi
        omega
      · cases hi
    · cases hi

/-- With the room that `process` gives, the coder always succeeds, writes inside its buffer, and
makes the input longer by at most one byte. -/
theorem rleCompress_fits (src : Bytes) :
    (∃ out, rleCompress src (src.length * 2 + 64) = some (0, out) ∧ out.length ≤ src.length + 1) ∧
      ∀ i ∈ rleCompressWrites src (src.length * 2 + 64), i < src.length * 2 + 64 := by
  refine ⟨⟨_, rleCompress_eq src, ?_⟩, rleCompressWrites_lt src _⟩
  obtain ⟨hcoded, -⟩ := tokens_spec src.length (Nat.le_refl src.length)
  split_ifs with hstored
  · exact Nat.le_refl _
  · omega

end PipelineTunnel.Modules.Rle
