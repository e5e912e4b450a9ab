import PipelineTunnel.Split.Config

/-!
# The order of the configuration tokens

The help of the split module knows the tokens `n:N`, `s:SIZE` or `s:MIN-MAX` with a suffix K
behind a size, and `trace`. `init` searches each of them in the whole string. A size ends at
the first character that is no digit, but `parse_size` looks for its suffix at the end of the
string that it is given: the first size of a range is copied out of the configuration before it
is parsed, the last size is not.

## Implementation notes

A configuration is the tokens of `Params` in some order, joined by commas.
-/

namespace PipelineTunnel.Split

open CString

/-- The flag `trace` of the context. -/
def traceFlag (config : List Char) : Bool := (strstr config ['t', 'r', 'a', 'c', 'e']).isSome

/-- The fields of the context that `init` takes from the configuration. -/
structure Settings where
  numOutputs : Nat
  chunkSizeMin : Nat
  chunkSizeMax : Nat
  trace : Bool
deriving DecidableEq, Repr

def settings (config : String) : Settings :=
  let ctx := SplitContext.init config
  { numOutputs := ctx.numOutputs
    chunkSizeMin := ctx.chunkSizeMin
    chunkSizeMax := ctx.chunkSizeMax
    trace := traceFlag config.toList }

/-! ## Tokens -/

/-- A size in a token; with the suffix it counts kilobytes. -/
structure Size where
  value : Nat
  suffix : Option Char
  pos : 0 < value
  lt : value < 2 ^ 31 / 1024
  suffix_mem : ∀ c ∈ suffix, c = 'K' ∨ c = 'k'

def Size.print (z : Size) : List Char := decimal z.value ++ z.suffix.toList

/-- The size `1K`. -/
def oneK : Size where
  value := 1
  suffix := some 'K'
  pos := Nat.one_pos
  lt := by decide
  suffix_mem := fun _ hc => Or.inl (Option.some.inj hc).symm

def Size.bytes (z : Size) : Nat := if z.suffix.isSome then z.value * 1024 else z.value

inductive SizeRange where
  | fixed (size : Size)
  | range (lo hi : Size)

namespace SizeRange

def print : SizeRange → List Char
  | fixed size => size.print
  | range lo hi => lo.print ++ '-' :: hi.print

/-- The size that is printed last. -/
def last : SizeRange → Size
  | fixed size => size
  | range _ hi => hi

/-- The smaller and the larger one of two sizes. -/
def ordered (a b : Nat) : Nat × Nat := (min a b, max a b)

/-- The chunk sizes that the token asks for. -/
def chunkSizes : SizeRange → Nat × Nat
  | fixed size => ordered (clampChunk size.bytes) (clampChunk size.bytes)
  | range lo hi => ordered (clampChunk lo.bytes) (clampChunk hi.bytes)

end SizeRange

inductive Token where
  | streams (n : Nat)
  | size (r : SizeRange)
  | trace

namespace Token

def print : Token → List Char
  | streams n => 'n' :: ':' :: decimal n
  | size r => 's' :: ':' :: r.print
  | trace => ['t', 'r', 'a', 'c', 'e']

/-- The character with which the token begins. -/
def key : Token → Char
  | streams _ => 'n'
  | size _ => 's'
  | trace => 't'

end Token

/-- At most one token of each kind. -/
structure Params where
  streams : Option Nat
  size : Option SizeRange
  trace : Bool

namespace Params

def tokens (p : Params) : List Token :=
  (p.streams.map Token.streams).toList ++ (p.size.map Token.size).toList ++
    if p.trace then [Token.trace] else []

/-- The configuration with the tokens in this order. -/
def config (ts : List Token) : String := String.ofList ([','].intercalate (ts.map Token.print))

/-- Every order of the tokens gives the same settings, with the sizes that were asked for. -/
def OrderIndependent (p : Params) : Prop :=
  ∀ ts, ts.Perm p.tokens →
    (∀ ts', ts'.Perm p.tokens → settings (config ts) = settings (config ts')) ∧
    ∀ r, p.size = some r →
      ((settings (config ts)).chunkSizeMin, (settings (config ts)).chunkSizeMax) = r.chunkSizes

end Params

/-! ## The characters of a token -/

theorem Size.mem_print {z : Size} {c : Char} (h : c ∈ z.print) :
    c.isDigit = true ∨ c ∈ ['K', 'k', '-'] := by
  rcases List.mem_append.mp h with h | h
  · exact Or.inl (isDigit_decimal h)
  · rcases z.suffix_mem c (Option.mem_toList.mp h) with rfl | rfl
    · exact Or.inr (by decide)
    · exact Or.inr (by decide)

theorem Size.dash_print (z : Size) : '-' ∉ z.print := by
  intro h
  rcases List.mem_append.mp h with h | h
  · cases isDigit_decimal h
  · rcases z.suffix_mem '-' (Option.mem_toList.mp h) with heq | heq <;> cases heq

theorem SizeRange.mem_print {r : SizeRange} {c : Char} (h : c ∈ r.print) :
    c.isDigit = true ∨ c ∈ ['K', 'k', '-'] := by
  cases r with
  | fixed size => exact Size.mem_print h
  | range lo hi =>
      rcases List.mem_append.mp h with h | h
      · exact Size.mem_print h
      · rcases List.mem_cons.mp h with rfl | h
        · exact Or.inr (by decide)
        · exact Size.mem_print h

namespace Token

theorem key_mem (t : Token) : t.key ∈ ['n', 's', 't'] := by
  cases t <;> simp [key]

theorem key_streams (n : Nat) : (streams n).key = 'n' := rfl

theorem key_size (r : SizeRange) : (size r).key = 's' := rfl

theorem key_trace : trace.key = 't' := rfl

theorem key_eq_n {t : Token} (h : t.key = 'n') : ∃ n, t = streams n := by
  cases t with
  | streams n => exact ⟨n, rfl⟩
  | size r => cases h
  | trace => cases h

theorem key_eq_s {t : Token} (h : t.key = 's') : ∃ r, t = size r := by
  cases t with
  | streams n => cases h
  | size r => exact ⟨r, rfl⟩
  | trace => cases h

theorem key_eq_t {t : Token} (h : t.key = 't') : t = trace := by
  cases t with
  | streams n => cases h
  | size r => cases h
  | trace => rfl

/-- What a token is made of: its key, the rest of its name, digits, and in a size suffixes and
dashes. -/
theorem mem_print {t : Token} {c : Char} (h : c ∈ t.print) :
    c = t.key ∨ c ∈ [':', 'r', 'a', 'c', 'e'] ∨ c.isDigit = true ∨
      t.key = 's' ∧ c ∈ ['K', 'k', '-'] := by
  cases t with
  | streams n =>
      rcases List.mem_cons.mp h with h | h
      · exact Or.inl h
      · rcases List.mem_cons.mp h with rfl | h
        · exact Or.inr (Or.inl (by simp))
        · exact Or.inr (Or.inr (Or.inl (isDigit_decimal h)))
  | size r =>
      rcases List.mem_cons.mp h with h | h
      · exact Or.inl h
      · rcases List.mem_cons.mp h with rfl | h
        · exact Or.inr (Or.inl (by simp))
        · rcases SizeRange.mem_print h with h | h
          · exact Or.inr (Or.inr (Or.inl h))
          · exact Or.inr (Or.inr (Or.inr ⟨rfl, h⟩))
  | trace =>
      rcases List.mem_cons.mp h with h | h
      · exact Or.inl h
      · exact Or.inr (Or.inl (List.mem_cons_of_mem _ h))

/-- The first characters of the tokens stand nowhere else in a token. -/
theorem key_of_mem {t : Token} {c : Char} (hc : c ∈ ['n', 's', 't']) (h : c ∈ t.print) :
    t.key = c := by
  have hother : ∀ c ∈ ['n', 's', 't'],
      c ∉ [':', 'r', 'a', 'c', 'e'] ∧ c.isDigit ≠ true ∧ c ∉ ['K', 'k', '-'] := by simp
  obtain ⟨hname, hdigit, hsize⟩ := hother c hc
  rcases mem_print h with h | h | h | h
  · exact h.symm
  · exact absurd h hname
  · exact absurd h hdigit
  · exact absurd h.2 hsize

/-- A suffix and a dash belong to a size. -/
theorem key_of_mem_size {t : Token} {c : Char} (hc : c ∈ ['K', 'k', '-']) (h : c ∈ t.print) :
    t.key = 's' := by
  have hother : ∀ c ∈ ['K', 'k', '-'],
      c ∉ ['n', 's', 't'] ∧ c ∉ [':', 'r', 'a', 'c', 'e'] ∧ c.isDigit ≠ true := by simp
  obtain ⟨hkey, hname, hdigit⟩ := hother c hc
  rcases mem_print h with rfl | h | h | h
  · exact absurd t.key_mem hkey
  · exact absurd h hname
  · exact absurd h hdigit
  · exact h.1

/-- The tokens behind another one. -/
def behind (post : List Token) : List Char := post.flatMap fun t => ',' :: t.print

theorem behind_eq_nil {post : List Token} : behind post = [] ↔ post = [] := by
  cases post with
  | nil => exact iff_of_true rfl rfl
  | cons t post => exact iff_of_false (fun h => by cases h) (List.cons_ne_nil t post)

theorem behind_head (post : List Token) : ∀ c ∈ (behind post).head?, c = ',' := by
  cases post with
  | nil =>
      intro c hc
      cases hc
  | cons t post =>
      intro c hc
      cases hc
      rfl

/-- Without a size behind it nothing reads like a part of one. -/
theorem not_mem_behind {post : List Token} (h : ∀ t ∈ post, t.key ≠ 's') {c : Char}
    (hc : c ∈ ['K', 'k', '-']) : c ∉ behind post := by
  intro hmem
  obtain ⟨t, ht, hmem⟩ := List.mem_flatMap.mp hmem
  rcases List.mem_cons.mp hmem with rfl | hmem
  · exact absurd hc (by decide)
  · exact h t ht (key_of_mem_size hc hmem)

end Token

/-! ## Sizes -/

/-- A size as `init` reads it: the suffix counts at the end of the configuration. -/
def Size.read (z : Size) (atEnd : Prop) [Decidable atEnd] : Nat :=
  if atEnd then z.bytes else z.value

def SizeRange.readSizes (r : SizeRange) (atEnd : Prop) [Decidable atEnd] : Nat × Nat :=
  match r with
  | fixed size => ordered (clampChunk (size.read atEnd)) (clampChunk (size.read atEnd))
  | range lo hi => ordered (clampChunk lo.bytes) (clampChunk (hi.read atEnd))

theorem Size.print_ne_nil (z : Size) : z.print ≠ [] := by
  intro h
  exact decimal_ne_nil z.value (List.append_eq_nil_iff.mp h).1

theorem Size.atol_print (z : Size) {rest : List Char}
    (h : ∀ c ∈ rest.head?, c.isDigit = false) : atol (z.print ++ rest) = z.value := by
  have hlt := z.lt
  have hhead : ∀ c ∈ (z.suffix.toList ++ rest).head?, c.isDigit = false := by
    cases hs : z.suffix with
    | none => exact h
    | some c =>
        intro d hd
        cases hd
        rcases z.suffix_mem c hs with rfl | rfl <;> rfl
  rw [atol, Size.print, List.append_assoc, strtol_decimal z.value hhead]
  omega

/-- Behind the size, only its own suffix can end the string with a K. -/
theorem Size.getLast?_print (z : Size) {rest : List Char} (hK : 'K' ∉ rest) (hk : 'k' ∉ rest) :
    ((z.print ++ rest).getLast? = some 'K' ∨ (z.print ++ rest).getLast? = some 'k') ↔
      rest = [] ∧ z.suffix.isSome := by
  cases hrest : rest.getLast? with
  | some c =>
      have hmem : c ∈ rest := List.mem_of_getLast? hrest
      have hne : rest ≠ [] := List.ne_nil_of_mem hmem
      rw [List.getLast?_append_of_ne_nil _ hne, hrest]
      constructor
      · rintro (heq | heq)
        · cases heq
          exact absurd hmem hK
        · cases heq
          exact absurd hmem hk
      · rintro ⟨heq, -⟩
        exact absurd heq hne
  | none =>
      rw [List.getLast?_eq_none_iff] at hrest
      subst hrest
      rw [List.append_nil, Size.print]
      cases hs : z.suffix with
      | none =>
          have hdigit : ∀ c, (decimal z.value).getLast? = some c → c.isDigit = true :=
            fun c hc => isDigit_decimal (List.mem_of_getLast? hc)
          rw [Option.toList_none, List.append_nil]
          constructor
          · rintro (heq | heq)
            · cases hdigit _ heq
            · cases hdigit _ heq
          · rintro ⟨-, h⟩
            cases h
      | some c =>
          rw [Option.toList_some, List.getLast?_concat]
          apply iff_of_true
          · rcases z.suffix_mem c hs with rfl | rfl
            · exact Or.inl rfl
            · exact Or.inr rfl
          · exact ⟨rfl, rfl⟩

theorem Size.parseSize_print (z : Size) {rest : List Char}
    (hhead : ∀ c ∈ rest.head?, c.isDigit = false) (hK : 'K' ∉ rest) (hk : 'k' ∉ rest)
    (deflt : Nat) : parseSize (z.print ++ rest) deflt = clampChunk (z.read (rest = [])) := by
  have hpos := z.pos
  have hlt := z.lt
  have hne : z.print ++ rest ≠ [] := fun h => z.print_ne_nil (List.append_eq_nil_iff.mp h).1
  rw [parseSize, if_neg hne, z.atol_print hhead]
  dsimp only
  rw [if_neg (by omega)]
  by_cases hend : rest = [] ∧ z.suffix.isSome
  · have hlong : toLong ((z.value : Int) * 1024) = (z.value : Int) * 1024 :=
      Int.bmod_eq_of_le (by omega) (by omega)
    have hint : toInt ((z.value : Int) * 1024) = (z.value : Int) * 1024 :=
      Int.bmod_eq_of_le (by omega) (by omega)
    rw [if_pos ((z.getLast?_print hK hk).mpr hend), hlong, hint, Size.read, if_pos hend.1,
      Size.bytes, if_pos hend.2, Nat.cast_mul]
    rfl
  · have hint : toInt (z.value : Int) = (z.value : Int) :=
      Int.bmod_eq_of_le (by omega) (by omega)
    have hread : z.read (rest = []) = z.value := by
      rw [Size.read, Size.bytes]
      by_cases hnil : rest = []
      · rw [if_pos hnil, if_neg fun h => hend ⟨hnil, h⟩]
      · rw [if_neg hnil]
    rw [if_neg fun h => hend ((z.getLast?_print hK hk).mp h), hint, hread]

/-- A size fits into `tmp`. -/
theorem Size.length_print_le (z : Size) : z.print.length ≤ 63 := by
  have hlt := z.lt
  have hdigits : (decimal z.value).length ≤ 7 :=
    (Nat.length_toDigits_le_iff (by decide) (by decide)).mpr (by omega)
  have hsuffix : z.suffix.toList.length ≤ 1 := by cases z.suffix <;> simp
  rw [Size.print, List.length_append]
  omega

/-- The sizes in front of `rest`, which goes on with other tokens or ends. -/
theorem SizeRange.givenSizes_print (r : SizeRange) {rest : List Char}
    (hhead : ∀ c ∈ rest.head?, c.isDigit = false) (hK : 'K' ∉ rest) (hk : 'k' ∉ rest)
    (hdash : '-' ∉ rest) :
    ordered (givenSizes (r.print ++ rest)).1 (givenSizes (r.print ++ rest)).2 =
      r.readSizes (rest = []) := by
  cases r with
  | fixed size =>
      have hnone : strchr (size.print ++ rest) '-' = none := by
        apply strstr_eq_none
        intro hmem
        exact (List.mem_append.mp hmem).elim size.dash_print hdash
      have hgiven : givenSizes (size.print ++ rest) =
          (clampChunk (size.read (rest = [])), clampChunk (size.read (rest = []))) := by
        rw [givenSizes, hnone]
        dsimp only
        rw [size.parseSize_print hhead hK hk]
      rw [SizeRange.print, hgiven, SizeRange.readSizes]
  | range lo hi =>
      have hsome : strchr (lo.print ++ ('-' :: hi.print ++ rest)) '-' =
          some ('-' :: hi.print ++ rest) := by
        rw [strchr, strstr_append lo.dash_print]
        exact strstr_self ['-'] (hi.print ++ rest)
      have htmp : (lo.print ++ ('-' :: hi.print ++ rest)).take
          (min ((lo.print ++ ('-' :: hi.print ++ rest)).length -
            ('-' :: hi.print ++ rest).length) 63) = lo.print := by
        have hlength := lo.length_print_le
        rw [List.length_append, Nat.add_sub_cancel, Nat.min_eq_left hlength, List.take_left]
      have hlo : parseSize (lo.print ++ []) DEF_CHUNK_SIZE =
          clampChunk (lo.read (([] : List Char) = [])) :=
        lo.parseSize_print (fun c hc => by cases hc) List.not_mem_nil List.not_mem_nil _
      rw [List.append_nil, Size.read, if_pos rfl] at hlo
      have hgiven : givenSizes (lo.print ++ ('-' :: hi.print ++ rest)) =
          (clampChunk lo.bytes, clampChunk (hi.read (rest = []))) := by
        rw [givenSizes, hsome]
        dsimp only
        rw [htmp, hlo, List.cons_append, List.drop_succ_cons, List.drop_zero,
          hi.parseSize_print hhead hK hk]
      rw [SizeRange.print, List.append_assoc, hgiven, SizeRange.readSizes]

theorem ordered_eq (a b : Nat) : (if a > b then (b, a) else (a, b)) = SizeRange.ordered a b := by
  rw [SizeRange.ordered]
  by_cases h : a > b
  · rw [if_pos h, Nat.min_eq_right (by omega), Nat.max_eq_left (by omega)]
  · rw [if_neg h, Nat.min_eq_left (by omega), Nat.max_eq_right (by omega)]

/-! ## The tokens of a configuration -/

namespace Params

open Token (behind)

theorem toList_config (pre : List Token) (t : Token) (post : List Token) :
    (config (pre ++ t :: post)).toList =
      pre.flatMap (fun u => u.print ++ [',']) ++ (t.print ++ behind post) := by
  rw [config, String.toList_ofList, List.map_append, List.map_cons, intercalate_append_cons,
    List.flatMap_map, List.flatMap_map, behind]

/-- The search for a token passes everything in front of it. -/
theorem strstr_config {pre : List Token} {t : Token} {c : Char} (hc : c ∈ ['n', 's', 't'])
    (hpre : ∀ u ∈ pre, u.key ≠ c) {needle rest : List Char}
    (hprint : t.print = c :: needle ++ rest) (post : List Token) :
    strstr (config (pre ++ t :: post)).toList (c :: needle) =
      some (c :: needle ++ (rest ++ behind post)) := by
  have hfront : c ∉ pre.flatMap fun u => u.print ++ [','] := by
    intro hmem
    obtain ⟨u, hu, hmem⟩ := List.mem_flatMap.mp hmem
    rcases List.mem_append.mp hmem with hmem | hmem
    · exact hpre u hu (Token.key_of_mem hc hmem)
    · rw [List.mem_singleton.mp hmem] at hc
      exact absurd hc (by decide)
  rw [toList_config, strstr_append hfront, hprint, List.append_assoc]
  exact strstr_self (c :: needle) (rest ++ behind post)

theorem mem_config {ts : List Token} {c : Char} (h : c ∈ (config ts).toList) :
    c = ',' ∨ ∃ t ∈ ts, c ∈ t.print := by
  cases ts with
  | nil =>
      rw [config, String.toList_ofList] at h
      exact absurd h List.not_mem_nil
  | cons t post =>
      rw [← List.nil_append (t :: post), toList_config, List.flatMap_nil, List.nil_append] at h
      rcases List.mem_append.mp h with h | h
      · exact Or.inr ⟨t, List.mem_cons_self, h⟩
      · obtain ⟨u, hu, h⟩ := List.mem_flatMap.mp h
        rcases List.mem_cons.mp h with h | h
        · exact Or.inl h
        · exact Or.inr ⟨u, List.mem_cons_of_mem t hu, h⟩

theorem strstr_config_eq_none {ts : List Token} {c : Char} (hc : c ∈ ['n', 's', 't'])
    (h : ∀ t ∈ ts, t.key ≠ c) (needle : List Char) :
    strstr (config ts).toList (c :: needle) = none := by
  apply strstr_eq_none
  intro hmem
  rcases mem_config hmem with rfl | ⟨t, ht, hmem⟩
  · exact absurd hc (by decide)
  · exact h t ht (Token.key_of_mem hc hmem)

theorem nodup_tokens (p : Params) : (p.tokens.map Token.key).Nodup := by
  obtain ⟨streams, size, trace⟩ := p
  cases streams <;> cases size <;> cases trace <;> simp [tokens, Token.key]

theorem streams_mem_tokens {p : Params} {n : Nat} :
    Token.streams n ∈ p.tokens ↔ p.streams = some n := by
  simp [tokens]

theorem size_mem_tokens {p : Params} {r : SizeRange} :
    Token.size r ∈ p.tokens ↔ p.size = some r := by
  simp [tokens]

theorem trace_mem_tokens {p : Params} : Token.trace ∈ p.tokens ↔ p.trace = true := by
  simp [tokens]

/-- A token stands somewhere in the order, and no other one of its kind. -/
theorem split_order {p : Params} {ts : List Token} (h : ts.Perm p.tokens) {t : Token} {c : Char}
    (ht : t ∈ p.tokens) (hc : t.key = c) :
    ∃ pre post, ts = pre ++ t :: post ∧ (∀ u ∈ pre, u.key ≠ c) ∧ ∀ u ∈ post, u.key ≠ c := by
  subst hc
  obtain ⟨pre, post, rfl⟩ := List.append_of_mem (h.mem_iff.mpr ht)
  have hnodup : ((pre ++ t :: post).map Token.key).Nodup :=
    (h.map Token.key).nodup_iff.mpr p.nodup_tokens
  rw [List.map_append, List.map_cons] at hnodup
  have hmiddle := (List.nodup_middle.mp hnodup)
  rw [List.nodup_cons] at hmiddle
  refine ⟨pre, post, rfl, fun u hu heq => hmiddle.1 ?_, fun u hu heq => hmiddle.1 ?_⟩
  · rw [← heq]
    exact List.mem_append_left _ (List.mem_map_of_mem hu)
  · rw [← heq]
    exact List.mem_append_right _ (List.mem_map_of_mem hu)

theorem comma_of_mem_head (post : List Token) : ∀ c ∈ (behind post).head?, c.isDigit = false := by
  intro c hc
  rw [Token.behind_head post c hc]
  rfl

/-- `extra_outputs` for the token `n:N`, or for none. -/
def extraOutputs (p : Params) : Int :=
  let n : Int := p.streams.elim 1 fun n => toInt (min (n : Int) (2 ^ 63 - 1))
  if n < 1 then 1 else n

theorem p_not_mem_config (ts : List Token) : 'p' ∉ (config ts).toList := by
  intro hmem
  rcases mem_config hmem with heq | ⟨t, -, hmem⟩
  · cases heq
  · rcases Token.mem_print hmem with heq | h | h | h
    · exact absurd (heq ▸ t.key_mem) (by simp)
    · exact absurd h (by simp)
    · cases h
    · exact absurd h.2 (by simp)

theorem extraOutputs_config {p : Params} {ts : List Token} (h : ts.Perm p.tokens) :
    Split.extraOutputs (config ts).toList = p.extraOutputs := by
  rw [Split.extraOutputs, extraOutputs]
  cases hstreams : p.streams with
  | none =>
      have hkey : ∀ t ∈ ts, t.key ≠ 'n' := by
        intro t ht heq
        obtain ⟨n, rfl⟩ := Token.key_eq_n heq
        rw [h.mem_iff, streams_mem_tokens, hstreams] at ht
        cases ht
      have hsplit : ['s', 'p', 'l', 'i', 't', ':'].isPrefixOf (config ts).toList ≠ true := by
        intro hprefixed
        have hsubset := (List.isPrefixOf_iff_prefix.mp hprefixed).subset
        exact p_not_mem_config ts (hsubset (by decide))
      rw [strstr_config_eq_none (by decide) hkey]
      dsimp only
      rw [if_neg hsplit]
      rfl
  | some n =>
      obtain ⟨pre, post, rfl, hpre, -⟩ := split_order h (streams_mem_tokens.mpr hstreams)
        (Token.key_streams n)
      have hnumber : atoi (decimal n ++ behind post) = toInt (min (n : Int) (2 ^ 63 - 1)) := by
        rw [atoi, strtol_decimal n (comma_of_mem_head post)]
      have hfound := strstr_config (by decide) hpre
        (show (Token.streams n).print = 'n' :: [':'] ++ decimal n from rfl) post
      have hdrop : ('n' :: [':'] ++ (decimal n ++ behind post)).drop 2 = decimal n ++ behind post :=
        rfl
      rw [hfound]
      simp only [hdrop, hnumber, Option.elim_some]
      rfl

theorem traceFlag_config {p : Params} {ts : List Token} (h : ts.Perm p.tokens) :
    traceFlag (config ts).toList = p.trace := by
  rw [traceFlag]
  cases htrace : p.trace with
  | true =>
      obtain ⟨pre, post, rfl, hpre, -⟩ := split_order h (trace_mem_tokens.mpr htrace)
        Token.key_trace
      have hfound := strstr_config (by decide) hpre
        (show Token.trace.print = 't' :: ['r', 'a', 'c', 'e'] ++ [] from rfl) post
      rw [hfound]
      rfl
  | false =>
      have hkey : ∀ t ∈ ts, t.key ≠ 't' := by
        intro t ht heq
        obtain rfl := Token.key_eq_t heq
        rw [h.mem_iff, trace_mem_tokens, htrace] at ht
        cases ht
      rw [strstr_config_eq_none (by decide) hkey]
      rfl

/-- The sizes depend on what stands behind their token. -/
theorem chunkSizes_config {pre post : List Token} {r : SizeRange}
    (hpre : ∀ u ∈ pre, u.key ≠ 's') (hpost : ∀ u ∈ post, u.key ≠ 's') :
    chunkSizes (config (pre ++ Token.size r :: post)).toList = r.readSizes (post = []) := by
  have hgiven := r.givenSizes_print (comma_of_mem_head post)
    (Token.not_mem_behind hpost (by decide)) (Token.not_mem_behind hpost (by decide))
    (Token.not_mem_behind hpost (by decide))
  have hread : r.readSizes (behind post = []) = r.readSizes (post = []) := by
    simp only [Token.behind_eq_nil]
  have hfound := strstr_config (by decide) hpre
    (show (Token.size r).print = 's' :: [':'] ++ r.print from rfl) post
  have hdrop : ('s' :: [':'] ++ (r.print ++ behind post)).drop 2 = r.print ++ behind post := rfl
  rw [chunkSizes, hfound]
  dsimp only
  rw [hdrop, ordered_eq, hgiven, hread]

theorem chunkSizes_config_none {p : Params} {ts : List Token} (h : ts.Perm p.tokens)
    (hsize : p.size = none) : chunkSizes (config ts).toList = (DEF_CHUNK_SIZE, DEF_CHUNK_SIZE) := by
  have hkey : ∀ t ∈ ts, t.key ≠ 's' := by
    intro t ht heq
    obtain ⟨r, rfl⟩ := Token.key_eq_s heq
    rw [h.mem_iff, size_mem_tokens, hsize] at ht
    cases ht
  rw [chunkSizes, strstr_config_eq_none (by decide) hkey]

/-! ## Every order -/

/-- The settings that the tokens ask for. -/
def asked (p : Params) : Settings :=
  let sizes := p.size.elim (DEF_CHUNK_SIZE, DEF_CHUNK_SIZE) SizeRange.chunkSizes
  { numOutputs := p.extraOutputs.toNat
    chunkSizeMin := sizes.1
    chunkSizeMax := sizes.2
    trace := p.trace }

theorem settings_ofList (l : List Char) :
    settings (String.ofList l) =
      { numOutputs := (Split.extraOutputs l).toNat
        chunkSizeMin := (chunkSizes l).1
        chunkSizeMax := (chunkSizes l).2
        trace := traceFlag l } := by
  rw [settings, SplitContext.init, String.toList_ofList]

theorem settings_config {p : Params} {ts : List Token} (h : ts.Perm p.tokens) :
    settings (config ts) =
      { numOutputs := p.extraOutputs.toNat
        chunkSizeMin := (chunkSizes (config ts).toList).1
        chunkSizeMax := (chunkSizes (config ts).toList).2
        trace := p.trace } := by
  rw [settings, traceFlag_config h, SplitContext.init, extraOutputs_config h]

end Params

theorem clampChunk_natCast (n : Nat) : clampChunk n = max 64 (min n 65536) := by
  have hmin : MIN_CHUNK = 64 := rfl
  have hmax : MAX_CHUNK = 65536 := rfl
  rw [clampChunk]
  split_ifs <;> omega

/-- A number that its suffix changes is another size without it. -/
theorem Size.clampChunk_value_ne {z : Size} (hsuffix : z.suffix ≠ none) (hlt : z.value < 65536) :
    clampChunk z.value ≠ clampChunk z.bytes := by
  have hpos := z.pos
  have hsome : z.suffix.isSome := Option.isSome_iff_ne_none.mpr hsuffix
  rw [Size.bytes, if_pos hsome, clampChunk_natCast, clampChunk_natCast]
  omega

theorem Size.clampChunk_read {z : Size} (h : z.suffix = none ∨ 65536 ≤ z.value) (atEnd : Prop)
    [Decidable atEnd] : clampChunk (z.read atEnd) = clampChunk z.bytes := by
  rw [Size.read]
  by_cases hend : atEnd
  · rw [if_pos hend]
  · rw [if_neg hend, Size.bytes]
    rcases h with hnone | hge
    · rw [if_neg (by simp [hnone])]
    · by_cases hsome : z.suffix.isSome = true
      · rw [if_pos hsome, clampChunk_natCast, clampChunk_natCast]
        omega
      · rw [if_neg hsome]

theorem SizeRange.readSizes_eq {r : SizeRange} {atEnd : Prop} [Decidable atEnd]
    (h : clampChunk (r.last.read atEnd) = clampChunk r.last.bytes) :
    r.readSizes atEnd = r.chunkSizes := by
  cases r with
  | fixed size =>
      rw [last] at h
      rw [readSizes, chunkSizes, h]
  | range lo hi =>
      rw [last] at h
      rw [readSizes, chunkSizes, h]

/-- Two pairs in order that share a size agree only if the other sizes do. -/
theorem SizeRange.readSizes_ne {r : SizeRange} {atEnd : Prop} [Decidable atEnd]
    (h : clampChunk (r.last.read atEnd) ≠ clampChunk r.last.bytes) :
    r.readSizes atEnd ≠ r.chunkSizes := by
  intro heq
  apply h
  cases r with
  | fixed size =>
      rw [readSizes, chunkSizes, ordered, ordered, Prod.mk.injEq, Nat.min_self, Nat.min_self] at heq
      exact heq.1
  | range lo hi =>
      rw [readSizes, chunkSizes, ordered, ordered, Prod.mk.injEq] at heq
      rw [last]
      omega

namespace Params

theorem exists_size_first {p : Params} {r : SizeRange} (hr : p.size = some r)
    (hother : p.streams = none → p.trace ≠ false) :
    ∃ post, (Token.size r :: post).Perm p.tokens ∧ post ≠ [] ∧ ∀ t ∈ post, t.key ≠ 's' := by
  obtain ⟨streams, size, trace⟩ := p
  obtain rfl : size = some r := hr
  refine ⟨(streams.map Token.streams).toList ++ if trace then [Token.trace] else [], ?_, ?_, ?_⟩
  · rw [tokens, List.append_assoc]
    exact List.perm_middle.symm
  · cases streams with
    | none =>
        have htrace : trace = true := Bool.not_eq_false _ ▸ hother rfl
        simp [htrace]
    | some n => simp
  · intro t ht heq
    obtain ⟨r', rfl⟩ := Token.key_eq_s heq
    simp at ht

/-- A size that is the only token stands at the end. -/
theorem behind_size_only {p : Params} {pre post : List Token} {r : SizeRange}
    (h : (pre ++ Token.size r :: post).Perm p.tokens) (hr : p.size = some r)
    (hother : p.streams = none ∧ p.trace = false) : post = [] := by
  have hlength : (pre ++ Token.size r :: post).length = 1 := by
    rw [h.length_eq, tokens, hr, hother.1, hother.2]
    rfl
  rw [List.length_append, List.length_cons] at hlength
  exact List.eq_nil_of_length_eq_zero (by omega)

/-- Every order gives what was asked for, unless a suffix that matters can be followed by another
token. -/
theorem orderIndependent_iff (p : Params) :
    p.OrderIndependent ↔
      ∀ r, p.size = some r → r.last.suffix = none ∨ 65536 ≤ r.last.value ∨
        (p.streams = none ∧ p.trace = false) := by
  constructor
  · intro h r hr
    by_contra! hne
    obtain ⟨hsuffix, hlt, hother⟩ := hne
    -- The size goes first, so another token stands behind it.
    obtain ⟨post, hperm, hne, hpost⟩ := exists_size_first hr hother
    have hsizes := (h _ hperm).2 r hr
    have hread : chunkSizes (config ([] ++ Token.size r :: post)).toList =
        r.readSizes (post = []) :=
      chunkSizes_config (fun u hu => absurd hu List.not_mem_nil) hpost
    rw [settings_config hperm, ← List.nil_append (Token.size r :: post)] at hsizes
    dsimp only at hsizes
    rw [hread] at hsizes
    apply SizeRange.readSizes_ne _ hsizes
    rw [Size.read, if_neg hne]
    exact Size.clampChunk_value_ne hsuffix hlt
  · intro h
    have hasked : ∀ ts, ts.Perm p.tokens → settings (config ts) = p.asked := by
      intro ts hts
      rw [settings_config hts, asked]
      cases hsize : p.size with
      | none => rw [chunkSizes_config_none hts hsize, Option.elim_none]
      | some r =>
          obtain ⟨pre, post, rfl, hpre, hpost⟩ := split_order hts (size_mem_tokens.mpr hsize)
            (Token.key_size r)
          rw [chunkSizes_config hpre hpost, Option.elim_some, SizeRange.readSizes_eq]
          rcases h r hsize with hvalue | hvalue | hother
          · exact Size.clampChunk_read (Or.inl hvalue) _
          · exact Size.clampChunk_read (Or.inr hvalue) _
          · rw [Size.read, if_pos (behind_size_only hts hsize hother)]
    intro ts hts
    refine ⟨fun ts' hts' => (hasked ts hts).trans (hasked ts' hts').symm, fun r hr => ?_⟩
    rw [hasked ts hts, asked, hr, Option.elim_some]

/-- `s:1K,n:2` makes chunks of 64 bytes, `n:2,s:1K` chunks of 1024. -/
theorem not_orderIndependent_suffix :
    settings (config [Token.size (.fixed oneK), Token.streams 2]) = ⟨2, 64, 64, false⟩ ∧
      settings (config [Token.streams 2, Token.size (.fixed oneK)]) = ⟨2, 1024, 1024, false⟩ ∧
      ¬ OrderIndependent ⟨some 2, some (.fixed oneK), false⟩ := by
  have hfirst : settings (config [Token.size (.fixed oneK), Token.streams 2]) =
      ⟨2, 64, 64, false⟩ := by
    rw [config, settings_ofList]
    decide
  have hlast : settings (config [Token.streams 2, Token.size (.fixed oneK)]) =
      ⟨2, 1024, 1024, false⟩ := by
    rw [config, settings_ofList]
    decide
  refine ⟨hfirst, hlast, fun h => ?_⟩
  have heq := (h [Token.size (.fixed oneK), Token.streams 2] (List.Perm.swap _ _ _)).1
    [Token.streams 2, Token.size (.fixed oneK)] (List.Perm.refl _)
  rw [hfirst, hlast] at heq
  exact absurd heq (by decide)

end Params

end PipelineTunnel.Split
