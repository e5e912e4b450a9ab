import PipelineTunnel.Pipeline.Pool
import PipelineTunnel.Split.Config

/-!
# Two chains as a tunnel

Chain A encodes what is pushed into it, its `wire_write` calls are handed to
`push_packet` of chain B port by port, and B decodes. Both are built from the same
module list, at most one entry of which is the split module; the others transform
packets without state.

## Implementation notes

`transformers` stands for the loaded modules other than split: the name selects the
module and its `init` turns the parameters into the two functions that `process`
applies. `wire_write` returns 0, which no module here looks at. A delivery takes the
next output of its port; deliveries to different ports may come in any order.
-/

namespace PipelineTunnel.Pipeline

open Split (SplitContext)

/-- A module without state, which restores every packet that it has changed. -/
structure Transformer where
  enc : Bytes → Bytes
  dec : Bytes → Bytes
  dec_enc : ∀ x, x ≠ [] → dec (enc x) = x
  enc_ne_nil : ∀ x, x ≠ [] → enc x ≠ []

/-- The module that changes nothing. -/
def Transformer.id : Transformer where
  enc x := x
  dec x := x
  dec_enc _ _ := rfl
  enc_ne_nil _ h := h

inductive ModuleContext where
  | transform (t : Transformer)
  | split (ctx : SplitContext)

/-- The `write_packet` calls of split. -/
def splitWrites (ws : List Split.Write) : List (Int × Bytes) := ws.map fun w => ((w.1 : Int), w.2)

/-- `process_fn` of the modules of a tunnel. -/
def tunnelProcess : Process ModuleContext := fun rand ctx dir _ data =>
  match ctx, dir with
  | .transform t, .encode => some (.transform t, [(1, t.enc data)])
  | .transform t, .decode => some (.transform t, [(0, t.dec data)])
  | .split c, .encode =>
      let r := Split.processSplit rand c data
      some (.split r.1, splitWrites r.2)
  | .split c, .decode =>
      (Split.processMerge c data).map fun r => (.split r.1, splitWrites r.2)

variable (transformers : String → Option (String → Transformer))

def findModule (name : String) : Option (ModuleBase ModuleContext) :=
  if name = "split" then
    some { init := fun params => .split (SplitContext.init params), requests := Split.extrasNeeded }
  else
    (transformers name).map fun init =>
      { init := fun params => .transform (init params), requests := fun _ => 0 }

def tunnelChain (cfg : List ModuleSpec) (order : Nat → List (Nat × Int) → List (Nat × Int)) :
    Chain ModuleContext :=
  construct (createOne (findModule transformers) (fun _ => false) cfg) cfg.length order

/-- At most one module is split, it is not the last one, and the others are loaded. -/
structure Tunnelable (cfg : List ModuleSpec) : Prop where
  one : (cfg.filter fun spec => spec.name = "split").length ≤ 1
  last : ∀ spec ∈ cfg.getLast?, spec.name ≠ "split"
  loaded : ∀ spec ∈ cfg, spec.name ≠ "split" → (transformers spec.name).isSome

/-- The place of split in the list, or the length of a list without it. -/
def splitIdx (cfg : List ModuleSpec) : Nat := cfg.findIdx fun spec => spec.name = "split"

/-- What module `i` of the list does to a packet, for the modules other than split. -/
def transformerAt (cfg : List ModuleSpec) (i : Nat) : Transformer :=
  match cfg[i]? with
  | none => .id
  | some spec => ((transformers spec.name).map fun init => init spec.params).getD .id

/-- A packet after the first `n` modules towards the wire. -/
def encoded (tr : Nat → Transformer) (n : Nat) (x : Bytes) : Bytes :=
  (List.range n).foldl (fun y i => (tr i).enc y) x

/-- A packet after the first `n` modules towards the external side. -/
def decoded (tr : Nat → Transformer) (n : Nat) (y : Bytes) : Bytes :=
  (List.range n).reverse.foldl (fun y i => (tr i).dec y) y

theorem encoded_succ (tr : Nat → Transformer) (n : Nat) (x : Bytes) :
    encoded tr (n + 1) x = (tr n).enc (encoded tr n x) := by
  rw [encoded, List.range_succ, List.foldl_concat, encoded]

theorem decoded_succ (tr : Nat → Transformer) (n : Nat) (y : Bytes) :
    decoded tr (n + 1) y = decoded tr n ((tr n).dec y) := by
  rw [decoded, List.range_succ, List.reverse_concat, List.foldl_cons, decoded]

theorem encoded_ne_nil (tr : Nat → Transformer) (n : Nat) {x : Bytes} (hx : x ≠ []) :
    encoded tr n x ≠ [] := by
  induction n with
  | zero => exact hx
  | succ n ih =>
      rw [encoded_succ]
      exact (tr n).enc_ne_nil _ ih

/-- Decoding takes back what encoding did. -/
theorem decoded_encoded (tr : Nat → Transformer) (n : Nat) {x : Bytes} (hx : x ≠ []) :
    decoded tr n (encoded tr n x) = x := by
  induction n with
  | zero => rfl
  | succ n ih =>
      rw [encoded_succ, decoded_succ, (tr n).dec_enc _ (encoded_ne_nil tr n hx)]
      exact ih

/-! ## The two pools -/

structure Tunnel where
  a : Pool ModuleContext
  b : Pool ModuleContext

/-- A packet is pushed into A, an output of A is delivered to B, or a worker moves. -/
inductive TunnelAction where
  | push (src : Int) (data : Bytes)
  | deliver (port : Int)
  | workA (act : Action)
  | workB (act : Action)

def Action.isPush : Action → Bool
  | .push .. => true
  | _ => false

namespace Tunnel

/-- Each chain has a pool of one worker. -/
def start (ca cb : Chain ModuleContext) : Tunnel := ⟨Pool.start ca 1, Pool.start cb 1⟩

/-- The first output of A at a port that has not been delivered. -/
def nextOutput (t : Tunnel) (port : Int) : Option Bytes :=
  ((t.a.wire.filter (·.1 = port))[(t.b.pushed.filter (·.src = port)).length]?).map Prod.snd

def step (t : Tunnel) : TunnelAction → Option Tunnel
  | .push src data => (t.a.push ⟨src, .encode, data⟩).map fun a => { t with a := a }
  | .deliver port =>
      if port < 1 then none
      else
        match t.nextOutput port with
        | none => none
        | some data => (t.b.push ⟨port, .decode, data⟩).map fun b => { t with b := b }
  | .workA act =>
      if act.isPush then none else (t.a.step tunnelProcess act).map fun a => { t with a := a }
  | .workB act =>
      if act.isPush then none else (t.b.step tunnelProcess act).map fun b => { t with b := b }

/-- The packets pushed into A. -/
def sent (t : Tunnel) : List Bytes := t.a.pushed.map Input.data

/-- The buffers B passed to `wire_write` with `dst = 0`. -/
def received (t : Tunnel) : List Bytes := (t.b.wire.filter (·.1 = 0)).map Prod.snd

/-- Every output of A has been handed to B. -/
def AllDelivered (t : Tunnel) : Prop := ∀ w ∈ t.a.wire, t.nextOutput w.1 = none

instance (t : Tunnel) : Decidable t.AllDelivered :=
  inferInstanceAs (Decidable (∀ w ∈ t.a.wire, t.nextOutput w.1 = none))

/-- A pushed packet is not empty, split gets less than `2^31` bytes of it, and it is
neither the packet number `2^32 - 32768` nor the 16384th that B has not put out. -/
def Admissible (cfg : List ModuleSpec) (t : Tunnel) : TunnelAction → Prop
  | .push _ data => data ≠ [] ∧
      (encoded (transformerAt transformers cfg) (splitIdx cfg) data).length < 2 ^ 31 ∧
      t.sent.length + 1 < 2 ^ 32 - 32768 ∧ t.sent.length + 1 < t.received.length + 16384
  | _ => True

instance (cfg : List ModuleSpec) (t : Tunnel) : ∀ a, Decidable (t.Admissible transformers cfg a)
  | .push _ data => inferInstanceAs (Decidable (data ≠ [] ∧
      (encoded (transformerAt transformers cfg) (splitIdx cfg) data).length < 2 ^ 31 ∧
      t.sent.length + 1 < 2 ^ 32 - 32768 ∧ t.sent.length + 1 < t.received.length + 16384))
  | .deliver _ | .workA _ | .workB _ => isTrue trivial

end Tunnel

end PipelineTunnel.Pipeline
