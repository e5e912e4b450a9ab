import PipelineTunnel.Lib.CString
import Mathlib.Data.List.ReduceOption

/-!
# The chain configuration

`parse_chain` of `core/config.cpp` with `parse_hostport` of `common/utils.cpp`: the server, the
password and the modules of the chain from the string on the command line. Every separator is
searched in its own part of the string: the first `,` and the last `:` in the first block, the
first `|` in each of the others.

## Implementation notes

`blocksLoop` works on the string from `start` on; it makes at most one round for a character.
`parse_hostport` assigns the host before it looks at the port.
-/

namespace PipelineTunnel.Config

open CString

structure ModuleSpec where
  name : List Char
  params : List Char
deriving DecidableEq, Repr

structure ChainConfig where
  host : List Char := []
  port : UInt16 := 0
  password : List Char := []
  modules : List ModuleSpec := []
  valid : Bool := false
deriving DecidableEq, Repr

/-- `parse_hostport`, with the host and the port that it overwrites. -/
def parseHostport (str host : List Char) (port : UInt16) : Bool × List Char × UInt16 :=
  match rfind str ':' with
  | none => (false, host, port)
  | some colon =>
      let p := atoi (str.drop (colon + 1))
      if p ≤ 0 ∨ p > 65535 then (false, str.take colon, port)
      else (true, str.take colon, UInt16.ofNat p.toNat)

/-- The blocks between the semicolons; nothing comes behind the last one. -/
def blocksLoop : Nat → List Char → List (List Char)
  | 0, _ => []
  | fuel + 1, rest =>
      if rest = [] then []
      else
        match find rest ';' with
        | none => [rest]
        | some semicolon =>
            rest.take semicolon :: blocksLoop fuel (rest.drop (semicolon + 1))

/-- A block behind the first one. -/
def moduleSpec (b : List Char) : ModuleSpec :=
  match find b '|' with
  | none => ⟨b, []⟩
  | some pipe => ⟨b.take pipe, b.drop (pipe + 1)⟩

/-- The module at both ends of a chain. -/
def copyModule : ModuleSpec := ⟨['c', 'o', 'p', 'y'], []⟩

def parseChain (str : List Char) : ChainConfig :=
  match blocksLoop str.length str with
  | [] => {}
  | first :: rest =>
      let (addr, password) :=
        match find first ',' with
        | none => (first, [])
        | some comma => (first.take comma, first.drop (comma + 1))
      match parseHostport addr [] 0 with
      | (false, host, port) => { host, port, password }
      | (true, host, port) =>
          let modules := rest.filterMap fun b => if b = [] then none else some (moduleSpec b)
          { host, port, password, modules := (copyModule :: modules ++ [copyModule]).reverse,
            valid := true }

/-! ## What is printed -/

/-- A module of the chain, without parameters or with some. -/
structure Block where
  name : List Char
  params : Option (List Char)
deriving DecidableEq, Repr

namespace Block

def print (b : Block) : List Char :=
  match b.params with
  | none => b.name
  | some params => b.name ++ '|' :: params

def spec (b : Block) : ModuleSpec := ⟨b.name, b.params.getD []⟩

/-- A block that is not empty, without a `;`, and with no `|` in the name. -/
structure WellFormed (b : Block) : Prop where
  nonempty : b.print ≠ []
  semicolon : ';' ∉ b.print
  pipe : '|' ∉ b.name

instance (b : Block) : Decidable b.WellFormed :=
  decidable_of_iff (b.print ≠ [] ∧ ';' ∉ b.print ∧ '|' ∉ b.name)
    ⟨fun ⟨h₁, h₂, h₃⟩ => ⟨h₁, h₂, h₃⟩, fun ⟨h₁, h₂, h₃⟩ => ⟨h₁, h₂, h₃⟩⟩

end Block

def printServer (host : List Char) (port : Nat) (password : Option (List Char)) : List Char :=
  match password with
  | none => host ++ ':' :: decimal port
  | some password => host ++ ':' :: (decimal port ++ ',' :: password)

/-- The blocks behind the first one; `none` is an empty block. -/
def printBlocks (items : List (Option Block)) : List Char :=
  items.flatMap fun item => ';' :: item.elim [] Block.print

def printChain (host : List Char) (port : Nat) (password : Option (List Char))
    (items : List (Option Block)) : List Char :=
  printServer host port password ++ printBlocks items

/-! ## The blocks of a string -/

theorem blocksLoop_append {b : List Char} (hb : ';' ∉ b) (fuel : Nat) (rest : List Char) :
    blocksLoop (fuel + 1) (b ++ ';' :: rest) = b :: blocksLoop fuel rest := by
  rw [blocksLoop, if_neg (by simp), find_append_cons hb]
  dsimp only
  rw [List.take_left, drop_append_cons]

theorem blocksLoop_last {b : List Char} (hb : ';' ∉ b) (fuel : Nat) (hne : b ≠ []) :
    blocksLoop (fuel + 1) b = [b] := by
  rw [blocksLoop, if_neg hne, find_eq_none hb]

/-- The blocks that are not empty come back in order, whatever stands between them. -/
theorem blocksLoop_blocks (items : List (List Char)) : ∀ {b : List Char} {fuel : Nat}, ';' ∉ b →
    (∀ item ∈ items, ';' ∉ item) → (b ++ items.flatMap (';' :: ·)).length ≤ fuel →
    (blocksLoop fuel (b ++ items.flatMap (';' :: ·))).filter (· ≠ []) =
      (b :: items).filter (· ≠ []) := by
  induction items with
  | nil =>
      intro b fuel hb _ hfuel
      rw [List.flatMap_nil, List.append_nil] at hfuel ⊢
      by_cases hne : b = []
      · subst hne
        cases fuel <;> simp [blocksLoop]
      · obtain ⟨fuel, rfl⟩ : ∃ k, fuel = k + 1 := by
          have := List.length_pos_iff.mpr hne
          exact ⟨fuel - 1, by omega⟩
        rw [blocksLoop_last hb fuel hne]
  | cons item items ih =>
      intro b fuel hb hitems hfuel
      rw [List.flatMap_cons, List.cons_append] at hfuel ⊢
      obtain ⟨fuel, rfl⟩ : ∃ k, fuel = k + 1 := by
        rw [List.length_append, List.length_cons] at hfuel
        exact ⟨fuel - 1, by omega⟩
      have hrest := ih (hitems item List.mem_cons_self)
        (fun other hother => hitems other (List.mem_cons_of_mem item hother))
        (by rw [List.length_append, List.length_cons] at hfuel; omega : _ ≤ fuel)
      rw [blocksLoop_append hb, List.filter_cons, List.filter_cons, hrest]

/-- The first block, and the blocks behind it that are not empty. -/
theorem blocksLoop_first {b : List Char} (hb : ';' ∉ b) (hne : b ≠ []) {items : List (List Char)}
    (hitems : ∀ item ∈ items, ';' ∉ item) {fuel : Nat}
    (hfuel : (b ++ items.flatMap (';' :: ·)).length ≤ fuel) :
    ∃ rest, blocksLoop fuel (b ++ items.flatMap (';' :: ·)) = b :: rest ∧
      rest.filter (· ≠ []) = items.filter (· ≠ []) := by
  have hlength := List.length_pos_iff.mpr hne
  rw [List.length_append] at hfuel
  obtain ⟨fuel, rfl⟩ : ∃ k, fuel = k + 1 := ⟨fuel - 1, by omega⟩
  cases items with
  | nil => exact ⟨[], by rw [List.flatMap_nil, List.append_nil, blocksLoop_last hb fuel hne], rfl⟩
  | cons item items =>
      rw [List.flatMap_cons, List.cons_append] at hfuel ⊢
      rw [List.length_cons] at hfuel
      refine ⟨_, blocksLoop_append hb fuel _, ?_⟩
      apply blocksLoop_blocks items (hitems item List.mem_cons_self)
      · exact fun other hother => hitems other (List.mem_cons_of_mem item hother)
      · omega

/-! ## Parsing what was printed -/

theorem parseHostport_print (host : List Char) {port : Nat} (hport : 1 ≤ port ∧ port ≤ 65535)
    (host' : List Char) (port' : UInt16) :
    parseHostport (host ++ ':' :: decimal port) host' port' =
      (true, host, UInt16.ofNat port) := by
  have hcolon : ':' ∉ decimal port := by
    intro hmem
    cases isDigit_decimal hmem
  have hvalue : atoi (decimal port) = port := by
    have happend : atoi (decimal port ++ []) = port :=
      atoi_decimal (by omega) (fun c hc => by cases hc)
    rwa [List.append_nil] at happend
  rw [parseHostport, rfind_append_cons hcolon]
  dsimp only
  rw [List.take_left, drop_append_cons, hvalue, if_neg (by omega), Int.toNat_natCast]

theorem moduleSpec_print {b : Block} (h : b.WellFormed) : moduleSpec b.print = b.spec := by
  obtain ⟨name, params⟩ := b
  cases params with
  | none =>
      have hprint : Block.print ⟨name, none⟩ = name := rfl
      rw [hprint, moduleSpec, find_eq_none h.pipe]
      rfl
  | some params =>
      have hprint : Block.print ⟨name, some params⟩ = name ++ '|' :: params := rfl
      rw [hprint, moduleSpec, find_append_cons h.pipe]
      dsimp only
      rw [List.take_left, drop_append_cons]
      rfl

/-- The loop over the blocks drops exactly the empty ones. -/
theorem filterMap_moduleSpec (rest : List (List Char)) :
    (rest.filterMap fun b => if b = [] then none else some (moduleSpec b)) =
      (rest.filter (· ≠ [])).map moduleSpec := by
  induction rest with
  | nil => rfl
  | cons b rest ih =>
      by_cases hb : b = []
      · rw [List.filterMap_cons_none (by rw [if_pos hb]), ih,
          List.filter_cons_of_neg (by simpa using hb)]
      · rw [List.filterMap_cons_some (by rw [if_neg hb]), ih,
          List.filter_cons_of_pos (by simpa using hb), List.map_cons]

theorem map_moduleSpec_print {items : List (Option Block)}
    (h : ∀ b ∈ items.reduceOption, b.WellFormed) :
    ((items.map fun item => item.elim [] Block.print).filter (· ≠ [])).map moduleSpec =
      items.reduceOption.map Block.spec := by
  induction items with
  | nil => rfl
  | cons item items ih =>
      cases item with
      | none =>
          rw [List.reduceOption_cons_of_none] at h ⊢
          rw [List.map_cons, List.filter_cons_of_neg (by simp)]
          exact ih h
      | some b =>
          rw [List.reduceOption_cons_of_some] at h ⊢
          have hb : b.WellFormed := h b List.mem_cons_self
          have hrest := ih fun other hother => h other (List.mem_cons_of_mem b hother)
          rw [List.map_cons, Option.elim_some,
            List.filter_cons_of_pos (p := fun text => decide (text ≠ []))
              (decide_eq_true hb.nonempty),
            List.map_cons, List.map_cons, hrest, moduleSpec_print hb]

theorem semicolon_printServer {host : List Char} {port : Nat} {password : Option (List Char)}
    (hhost : ';' ∉ host) (hpassword : ∀ p ∈ password, ';' ∉ p) :
    ';' ∉ printServer host port password := by
  have hport : ';' ∉ decimal port := by
    intro hmem
    cases isDigit_decimal hmem
  cases password with
  | none => simp [printServer, hhost, hport]
  | some password => simp [printServer, hhost, hport, hpassword password rfl]

theorem printServer_ne_nil (host : List Char) (port : Nat) (password : Option (List Char)) :
    printServer host port password ≠ [] := by
  cases password <;> simp [printServer]

/-- The first block is taken apart at its first `,`. -/
theorem parseChain_server {str first : List Char} {rest : List (List Char)}
    (hblocks : blocksLoop str.length str = first :: rest) {host : List Char} {port : Nat}
    {password : Option (List Char)} (hfirst : first = printServer host port password)
    (hhost : ',' ∉ host) (hport : 1 ≤ port ∧ port ≤ 65535) :
    parseChain str =
      { host := host
        port := UInt16.ofNat port
        password := password.getD []
        modules :=
          (copyModule :: (rest.filter (· ≠ [])).map moduleSpec ++ [copyModule]).reverse
        valid := true } := by
  have hcomma : ',' ∉ host ++ ':' :: decimal port := by
    intro hmem
    rcases List.mem_append.mp hmem with hmem | hmem
    · exact hhost hmem
    · rcases List.mem_cons.mp hmem with heq | hmem
      · cases heq
      · cases isDigit_decimal hmem
  rw [parseChain, hblocks, hfirst]
  cases password with
  | none =>
      have hprint : printServer host port none = host ++ ':' :: decimal port := rfl
      dsimp only
      rw [hprint, find_eq_none hcomma]
      dsimp only
      rw [parseHostport_print host hport, filterMap_moduleSpec]
      rfl
  | some password =>
      have hprint : printServer host port (some password) =
          (host ++ ':' :: decimal port) ++ ',' :: password := by simp [printServer]
      dsimp only
      rw [hprint, find_append_cons hcomma]
      dsimp only
      rw [List.take_left, drop_append_cons, parseHostport_print host hport]
      dsimp only
      rw [filterMap_moduleSpec]
      rfl

/-- Parsing gives back what was printed, with the modules in reverse order between two
copies. -/
theorem parseChain_printChain {host : List Char} {port : Nat} {password : Option (List Char)}
    {items : List (Option Block)} (hhost : ',' ∉ host ∧ ';' ∉ host)
    (hport : 1 ≤ port ∧ port ≤ 65535) (hpassword : ∀ p ∈ password, ';' ∉ p)
    (hitems : ∀ b ∈ items.reduceOption, b.WellFormed) :
    parseChain (printChain host port password items) =
      { host := host
        port := UInt16.ofNat port
        password := password.getD []
        modules := copyModule :: (items.reduceOption.map Block.spec).reverse ++ [copyModule]
        valid := true } := by
  have hprint : printChain host port password items = printServer host port password ++
      (items.map fun item => item.elim [] Block.print).flatMap (';' :: ·) := by
    rw [printChain, printBlocks, List.flatMap_map]
  have hblock : ∀ text ∈ items.map fun item => item.elim [] Block.print, ';' ∉ text := by
    intro text htext
    obtain ⟨item, hitem, rfl⟩ := List.mem_map.mp htext
    cases item with
    | none => exact List.not_mem_nil
    | some b => exact (hitems b (List.reduceOption_mem_iff.mpr hitem)).semicolon
  obtain ⟨rest, hblocks, hrest⟩ := blocksLoop_first
    (semicolon_printServer hhost.2 hpassword) (printServer_ne_nil host port password) hblock
    (Nat.le_refl _)
  rw [← hprint] at hblocks
  rw [parseChain_server hblocks rfl hhost.1 hport, hrest, map_moduleSpec_print hitems]
  simp

/-- A host with colons, a password and parameters with separators of the other levels, and an
empty block on each side of every module. -/
theorem parseChain_printChain_separators :
    parseChain (printChain [':', ':', '1'] 80 (some ['p', ',', ':', '|'])
        [none, some ⟨['r', 'l', 'e'], none⟩, none,
          some ⟨['x', 'o', 'r'], some ['k', ':', '|', ',']⟩, none]) =
      { host := [':', ':', '1']
        port := 80
        password := ['p', ',', ':', '|']
        modules :=
          [copyModule, ⟨['x', 'o', 'r'], ['k', ':', '|', ',']⟩, ⟨['r', 'l', 'e'], []⟩, copyModule]
        valid := true } :=
  parseChain_printChain (by decide) (by decide) (by decide) (by decide)

end PipelineTunnel.Config
