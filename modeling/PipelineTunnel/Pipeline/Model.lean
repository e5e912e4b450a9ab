import PipelineTunnel.Core.Protocol

/-!
# The module chain

`core/chain.cpp`: the constructor turns a module list into a graph of module
instances, `push_packet` finds the instance a packet enters at, and
`write_packet_impl` finds the next instance or the wire.

A pointer to an instance is its position in the constructor's `build` container. When
the constructor returns early that container is destroyed, so the positions kept in
`_entry_ext` and `_wire_entries` no longer name an instance: `modules` is then empty.

## Implementation notes

The constructor is written over `create`, the outcome of `create_one` by the number of
the call and the index in the module list: the context that `init` returned and the
count it passed to `request_outputs`, zero for none. `order` is the iteration order of
the `unordered_map` of requests in each round.
-/

namespace PipelineTunnel.Pipeline

variable {σ : Type*}

structure ModuleSpec where
  name : String
  params : String
deriving DecidableEq, Repr

/-- A registered module type, as far as the constructor sees it. -/
structure ModuleBase (σ : Type*) where
  init : String → σ
  requests : String → Int

/-- A module instance. `near` holds the neighbour towards the external side, the
neighbour towards the wire and the extra outputs. -/
structure Module (σ : Type*) where
  cfgIdx : Nat
  near : List (Option Nat) := [none, none]
  wireDst : Int := -1
  ctx : σ
deriving DecidableEq, Repr

structure Chain (σ : Type*) where
  modules : List (Module σ) := []
  entryExt : Option Nat := none
  wireEntries : List (Option Nat) := []
deriving DecidableEq, Repr

/-! ## The constructor -/

/-- The locals of the constructor and the members it fills while it runs; `calls` is
the number of `create_one` calls made. -/
structure Build (σ : Type*) where
  modules : List (Module σ) := []
  requested : List (Nat × Int) := []
  wireEntries : List (Option Nat) := []
  nextPort : Nat := 2
  calls : Nat := 0
deriving DecidableEq, Repr

/-- `request_outputs_impl`: counts below one are ignored. -/
def requestOutputs (requested : List (Nat × Int)) (mod : Nat) (count : Int) :
    List (Nat × Int) :=
  if count < 1 then requested else requested ++ [(mod, count)]

/-- `create_one`: the name is looked up, then `init` runs; `initFails` tells which
calls get no context from it. -/
def createOne (find : String → Option (ModuleBase σ)) (initFails : Nat → Bool)
    (cfg : List ModuleSpec) (call cidx : Nat) : Option (σ × Int) :=
  match cfg[cidx]? with
  | none => none
  | some spec =>
      match find spec.name with
      | none => none
      | some base =>
          if initFails call then none else some (base.init spec.params, base.requests spec.params)

namespace Build

def setNear (b : Build σ) (x pos : Nat) (q : Option Nat) : Build σ :=
  { b with modules := b.modules.modify x fun m => { m with near := m.near.set pos q } }

def resizeNear (b : Build σ) (x n : Nat) : Build σ :=
  { b with
    modules := b.modules.modify x fun m =>
      { m with near := m.near.take n ++ List.replicate (n - m.near.length) none } }

def setWireDst (b : Build σ) (x : Nat) (port : Int) : Build σ :=
  { b with modules := b.modules.modify x fun m => { m with wireDst := port } }

/-- The links of a new instance `mp` of a sub-chain of `mod`. -/
def linkSub (b : Build σ) (mod prev mp : Nat) : Build σ :=
  let b := b.setNear mp 0 (some prev)
  if prev ≠ mod then b.setNear prev 1 (some mp) else b

/-- The port table after `resize` and the assignment. -/
def setWireEntry (b : Build σ) (port x : Nat) : Build σ :=
  { b with
    wireEntries := (b.wireEntries ++
      List.replicate (port + 1 - b.wireEntries.length) none).set port (some x) }

/-- Phase 3: the instances move to the members of the chain. -/
def finish (b : Build σ) : Chain σ :=
  { modules := b.modules, entryExt := some 0, wireEntries := b.wireEntries }

end Build

variable (create : Nat → Nat → Option (σ × Int)) (size : Nat)
  (order : Nat → List (Nat × Int) → List (Nat × Int))

/-- A `create_one` call whose instance goes to the end of `build`; the error is the
state at the call that failed. -/
def addModule (b : Build σ) (cidx : Nat) : Except (Build σ) (Build σ) :=
  match create b.calls cidx with
  | none => .error b
  | some (ctx, count) =>
      .ok { b with
        modules := b.modules ++ [{ cfgIdx := cidx, ctx := ctx }]
        requested := requestOutputs b.requested b.modules.length count
        calls := b.calls + 1 }

/-- Phase 1 without the links. -/
def mainChain : Except (Build σ) (Build σ) :=
  (List.range size).foldlM (addModule create) {}

/-- The links of the main chain and the entry points. -/
def linkMain (b : Build σ) : Build σ :=
  let n := b.modules.length
  let linked : Build σ :=
    { b with
      modules := b.modules.mapIdx fun i m =>
        { m with
          near := [if i > 0 then some (i - 1) else none, if i + 1 < n then some (i + 1) else none] }
      wireEntries := [none, some (n - 1)] }
  (linked.setWireDst 0 0).setWireDst (n - 1) 1

/-- The loop over `ri` that builds one copy of the modules behind `mod`: the state,
`prev_mod` and `first_sub`. -/
def subLoop (mod : Nat) : List Nat → Nat → Option Nat → Build σ →
    Except (Build σ) (Build σ × Nat × Option Nat)
  | [], prev, first, b => .ok (b, prev, first)
  | ri :: ris, prev, first, b =>
      match addModule create b ri with
      | .error b => .error b
      | .ok b' =>
          let mp := b.modules.length
          subLoop mod ris mp (if first.isNone then some mp else first) (b'.linkSub mod prev mp)

/-- The body of the loop over `k`: one extra output of `mod` with its port. -/
def addOutput (mod mc : Nat) (b : Build σ) (k : Nat) : Except (Build σ) (Build σ) :=
  match subLoop create mod (List.range' (mc + 1) (size - (mc + 1))) mod none b with
  | .error b => .error b
  | .ok (b, last, first) =>
      let port := b.nextPort
      let b := { b with nextPort := port + 1 }
      .ok (((b.setWireDst last port).setWireEntry port last).setNear mod (1 + k) first)

/-- The body of the loop over `pending`. -/
def serveRequest (b : Build σ) (request : Nat × Int) : Except (Build σ) (Build σ) :=
  match b.modules[request.1]? with
  | none => .ok b
  | some m =>
      if m.cfgIdx + 1 ≥ size then .ok b
      else
        (List.range' 1 request.2.toNat).foldlM (addOutput create size request.1 m.cfgIdx)
          (b.resizeNear request.1 (2 + request.2.toNat))

/-- The rounds of phase 2. `Wired.rounds` shows that one round for each module of
the list always reaches the exit of the loop. -/
def rounds : Nat → Nat → Build σ → Except (Build σ) (Build σ)
  | 0, _, b => .ok b
  | fuel + 1, r, b =>
      if b.requested = [] then .ok b
      else
        match (order r b.requested).foldlM (serveRequest create size) { b with requested := [] } with
        | .error b => .error b
        | .ok b => rounds fuel (r + 1) b

/-- The constructor. A failure in phase 1 leaves every member empty; a failure in
phase 2 leaves the entry points behind. -/
def construct : Chain σ :=
  match mainChain create size with
  | .error _ => {}
  | .ok b =>
      if b.modules = [] then {}
      else
        match rounds create size order size 0 (linkMain b) with
        | .error b => { modules := [], entryExt := some 0, wireEntries := b.wireEntries }
        | .ok b => b.finish

/-! ## Routing -/

/-- `dir`: 0 towards the wire, 1 towards the external side. -/
inductive Dir where
  | encode
  | decode
deriving DecidableEq, Repr

/-- What `push_packet` does with a packet. -/
inductive Push where
  | dropped
  /-- The branch for a chain without modules: straight to `wire_write`. -/
  | passThrough (dst : Int)
  | enqueued (mod : Nat)
  /-- `enqueue_module` with a null pointer. -/
  | null
deriving DecidableEq, Repr

def pushPacket (c : Chain σ) (cancelled ownerAlive : Bool) (srcIdx : Int) (dir : Dir) : Push :=
  if cancelled then .dropped
  else
    match c.entryExt with
    | none => .passThrough (if dir = .encode then 1 else 0)
    | some entry =>
        if ¬ownerAlive then .dropped
        else
          match dir with
          | .encode => .enqueued entry
          | .decode =>
              if srcIdx < 0 ∨ srcIdx.toNat ≥ c.wireEntries.length then .dropped
              else
                match c.wireEntries[srcIdx.toNat]? with
                | some (some first) => .enqueued first
                | _ => .null

/-- Where `write_packet_impl` sends a packet. -/
inductive Hop where
  | toModule (mod : Nat) (dir : Dir)
  | toWire (dst : Int)
deriving DecidableEq, Repr

def writePacket (m : Module σ) (dst : Int) : Hop :=
  let dir := if dst = 0 then .decode else .encode
  match if dst ≥ 0 then m.near[dst.toNat]? else none with
  | some (some q) => .toModule q dir
  | _ => .toWire (if dst = 0 then 0 else m.wireDst)

end PipelineTunnel.Pipeline
