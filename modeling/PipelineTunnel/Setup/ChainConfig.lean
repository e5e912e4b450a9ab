import PipelineTunnel.Client.Lifecycle
import PipelineTunnel.Server.Lifecycle
import PipelineTunnel.Lib.Bits

/-!
# The chain configuration on the wire

`handle_module_list_res` of the client writes the module list into `MSG_CHAIN_CREATE`,
`handle_chain_create` of the server reads it back: a count, and for each module a name behind
one byte of length and parameters behind two. The reader leaves its loop at the first entry
that is cut off, without a word, and builds the chain from what it has.

## Implementation notes

`decodeModules` is `readModules` with the bytes behind the position at which the loop ends.
-/

namespace PipelineTunnel.Setup

open Protocol
open Server (readModules)
open Lifecycle (Core World MAX_WIRE_CONNECTIONS)

/-- A module: its name and its parameters. -/
abbrev ModuleSpec := Bytes × Bytes

/-- The lengths fit into the fields of an entry. -/
def Sized (m : ModuleSpec) : Prop := m.1.length ≤ 255 ∧ m.2.length ≤ 65535

instance (m : ModuleSpec) : Decidable (Sized m) := inferInstanceAs (Decidable (_ ∧ _))

/-- A module in `MSG_CHAIN_CREATE`. -/
def entry (m : ModuleSpec) : Bytes :=
  UInt8.ofNat m.1.length :: (m.1 ++
    (UInt8.ofNat m.2.length :: UInt8.ofNat (m.2.length / 256) :: m.2))

theorem chainConfig_eq (mods : List ModuleSpec) :
    Client.chainConfig mods = UInt8.ofNat mods.length :: mods.flatMap entry := rfl

/-! ## The reader -/

/-- The loop of `handle_chain_create`: the modules, and the bytes that have not been read. -/
def decodeModules : Nat → Bytes → List ModuleSpec × Bytes
  | 0, bytes => ([], bytes)
  | _ + 1, [] => ([], [])
  | n + 1, nameLen :: rest =>
      if rest.length < nameLen.toNat then ([], rest)
      else
        match rest.drop nameLen.toNat with
        | lo :: hi :: params =>
            let plen := lo.toNat ||| (hi.toNat <<< 8)
            if params.length < plen then ([], params)
            else
              let next := decodeModules n (params.drop plen)
              ((rest.take nameLen.toNat, params.take plen) :: next.1, next.2)
        | left => ([], left)

/-- What `handle_chain_create` makes of its payload; one without a count is too short. -/
def decodeChain : Bytes → Option (List ModuleSpec × Bytes)
  | [] => none
  | count :: rest => some (decodeModules count.toNat rest)

theorem decodeModules_fst (n : Nat) (bytes : Bytes) :
    (decodeModules n bytes).1 = readModules n bytes := by
  fun_induction decodeModules n bytes with
  | case1 => rfl
  | case2 => rfl
  | case3 n nameLen rest hshort => rw [readModules, if_pos hshort]
  | case4 n nameLen rest hlong lo hi params hdrop plen hshort =>
      rw [readModules, if_neg hlong, hdrop]
      exact (if_pos hshort).symm
  | case5 n nameLen rest hlong lo hi params hdrop plen hparams next ih =>
      rw [readModules, if_neg hlong, hdrop]
      dsimp only
      rw [if_neg hparams, ← ih]
  | case6 n nameLen rest hlong hdrop =>
      rw [readModules, if_neg hlong]
      split
      · rename_i lo hi params heq
        exact absurd heq (hdrop lo hi params)
      · rfl

/-- The handler acts on what the reader returns. -/
theorem handleChainCreate_eq (w : World) (core : Core) (pkt : Packet) :
    Lifecycle.handleChainCreate w core pkt =
      match decodeChain pkt.payload with
      | none => core
      | some (mods, _) =>
          let core := { core with chain := true }.note .chainCreated
          if w.extraOutputs mods > MAX_WIRE_CONNECTIONS then core.become .disconnected
          else Lifecycle.startChain w core (w.extraOutputs mods) := by
  cases hpayload : pkt.payload with
  | nil => simp only [Lifecycle.handleChainCreate, hpayload, decodeChain]
  | cons count rest =>
      simp only [Lifecycle.handleChainCreate, hpayload, decodeChain, decodeModules_fst]

/-! ## Whole entries -/

/-- The two bytes of a length give it back. -/
theorem plen_eq {len : Nat} (h : len ≤ 65535) :
    (UInt8.ofNat len).toNat ||| (UInt8.ofNat (len / 256)).toNat <<< 8 = len := by
  rw [UInt8.toNat_ofNat', UInt8.toNat_ofNat', Bits.or_shiftLeft (k := 8) (Nat.mod_lt _ (by decide))]
  omega

theorem decodeModules_entry (n : Nat) {m : ModuleSpec} (hm : Sized m) (rest : Bytes) :
    decodeModules (n + 1) (entry m ++ rest) =
      (m :: (decodeModules n rest).1, (decodeModules n rest).2) := by
  obtain ⟨name, params⟩ := m
  have hname : (UInt8.ofNat name.length).toNat = name.length := by
    rw [UInt8.toNat_ofNat', Nat.mod_eq_of_lt]
    exact Nat.lt_succ_of_le hm.1
  have hlong : ¬ (name ++ (UInt8.ofNat params.length :: UInt8.ofNat (params.length / 256) ::
      (params ++ rest))).length < name.length := by
    rw [List.length_append]
    omega
  have hparams : ¬ (params ++ rest).length < params.length := by
    rw [List.length_append]
    omega
  simp only [entry, List.cons_append, List.append_assoc, decodeModules, hname, if_neg hlong,
    List.drop_left, List.take_left, plen_eq hm.2, if_neg hparams]

theorem decodeModules_entries {mods : List ModuleSpec} (hmods : ∀ m ∈ mods, Sized m)
    (rest : Bytes) : decodeModules mods.length (mods.flatMap entry ++ rest) = (mods, rest) := by
  induction mods with
  | nil => rfl
  | cons m mods ih =>
      have htail := ih fun m' hm' => hmods m' (List.mem_cons_of_mem m hm')
      rw [List.length_cons, List.flatMap_cons, List.append_assoc,
        decodeModules_entry _ (hmods m List.mem_cons_self), htail]

/-- The server reads the module list that the client wrote, to the last byte. -/
theorem decodeChain_chainConfig {mods : List ModuleSpec} (hcount : mods.length ≤ 255)
    (hmods : ∀ m ∈ mods, Sized m) : decodeChain (Client.chainConfig mods) = some (mods, []) := by
  have hlen : (UInt8.ofNat mods.length).toNat = mods.length := by
    rw [UInt8.toNat_ofNat', Nat.mod_eq_of_lt]
    exact Nat.lt_succ_of_le hcount
  rw [chainConfig_eq, decodeChain, hlen]
  have hread := decodeModules_entries hmods []
  rw [List.append_nil] at hread
  rw [hread]

/-- Two modules, one of them without parameters. -/
theorem decodeChain_chainConfig_pair :
    decodeChain (Client.chainConfig [([114, 108, 101], []), ([97], [1, 0])]) =
      some ([([114, 108, 101], []), ([97], [1, 0])], []) :=
  decodeChain_chainConfig (by decide) (by decide)

/-! ## Payloads that are cut off -/

/-- The payload is the encoding of the modules it announces, and nothing else. -/
def Complete (payload : Bytes) : Prop :=
  ∃ mods : List ModuleSpec, mods.length ≤ 255 ∧ (∀ m ∈ mods, Sized m) ∧
    payload = Client.chainConfig mods

/-- An entry that is cut off ends the loop. -/
theorem decodeModules_cut (n : Nat) {m : ModuleSpec} (hm : Sized m) {bytes : Bytes}
    (hle : bytes <+: entry m) (hne : bytes ≠ entry m) : (decodeModules (n + 1) bytes).1 = [] := by
  obtain ⟨name, params⟩ := m
  have hname : (UInt8.ofNat name.length).toNat = name.length := by
    rw [UInt8.toNat_ofNat', Nat.mod_eq_of_lt]
    exact Nat.lt_succ_of_le hm.1
  cases bytes with
  | nil => rfl
  | cons nameLen rest =>
      obtain ⟨rfl, hrest⟩ := List.cons_prefix_cons.mp hle
      have hne : rest ≠ name ++ (UInt8.ofNat params.length ::
          UInt8.ofNat (params.length / 256) :: params) := fun heq => hne (by rw [heq]; rfl)
      rw [decodeModules, hname]
      split_ifs with hshort
      · rfl
      · -- the name is whole, so the cut is behind it
        obtain ⟨tail, rfl⟩ : name <+: rest :=
          List.prefix_of_prefix_length_le (List.prefix_append name _) hrest (by omega)
        rw [List.prefix_append_right_inj] at hrest
        have hne : tail ≠ UInt8.ofNat params.length ::
            UInt8.ofNat (params.length / 256) :: params := fun heq => hne (by rw [heq])
        rw [List.drop_left]
        match tail with
        | [] => rfl
        | [lo] => rfl
        | lo :: hi :: rest =>
            obtain ⟨hlo, hrest⟩ := List.cons_prefix_cons.mp hrest
            obtain ⟨hhi, hrest⟩ := List.cons_prefix_cons.mp hrest
            have hless : rest.length < params.length := by
              refine Nat.lt_of_le_of_ne hrest.length_le fun heq => hne ?_
              rw [hlo, hhi, hrest.eq_of_length heq]
            dsimp only at hlo hhi ⊢
            rw [hlo, hhi, plen_eq hm.2, if_pos hless]

/-- The loop returns the entries before the cut. -/
theorem decodeModules_of_prefix {mods : List ModuleSpec} (hmods : ∀ m ∈ mods, Sized m)
    {bytes : Bytes} (hle : bytes <+: mods.flatMap entry) (hne : bytes ≠ mods.flatMap entry) :
    (decodeModules mods.length bytes).1 <+: mods ∧ (decodeModules mods.length bytes).1 ≠ mods := by
  induction mods generalizing bytes with
  | nil => exact absurd (List.prefix_nil.mp hle) hne
  | cons m mods ih =>
      have hm := hmods m List.mem_cons_self
      rw [List.flatMap_cons] at hle hne
      rw [List.length_cons]
      by_cases hwhole : entry m <+: bytes
      · obtain ⟨tail, rfl⟩ := hwhole
        rw [List.prefix_append_right_inj] at hle
        have htail : tail ≠ mods.flatMap entry := fun heq => hne (by rw [heq])
        obtain ⟨hpart, hless⟩ := ih (fun m' hm' => hmods m' (List.mem_cons_of_mem m hm')) hle htail
        rw [decodeModules_entry _ hm]
        exact ⟨List.cons_prefix_cons.mpr ⟨rfl, hpart⟩, fun heq => hless (List.cons.inj heq).2⟩
      · have hcut : bytes <+: entry m :=
          (List.prefix_or_prefix_of_prefix hle (List.prefix_append (entry m) _)).resolve_right hwhole
        rw [decodeModules_cut _ hm hcut fun heq => hwhole (by rw [heq])]
        exact ⟨List.nil_prefix, (List.cons_ne_nil m mods).symm⟩

/-- Every cut of the message of the client leaves a strict part of its modules. -/
theorem decodeChain_of_cut {mods : List ModuleSpec} (hcount : mods.length ≤ 255)
    (hmods : ∀ m ∈ mods, Sized m) {payload : Bytes} (hle : payload <+: Client.chainConfig mods)
    (hne : payload ≠ Client.chainConfig mods) (hsome : payload ≠ []) :
    ∃ mods' left, decodeChain payload = some (mods', left) ∧ mods' <+: mods ∧ mods' ≠ mods := by
  obtain ⟨count, rest, rfl⟩ := List.exists_cons_of_ne_nil hsome
  rw [chainConfig_eq] at hle hne
  obtain ⟨rfl, hrest⟩ := List.cons_prefix_cons.mp hle
  have hlen : (UInt8.ofNat mods.length).toNat = mods.length := by
    rw [UInt8.toNat_ofNat', Nat.mod_eq_of_lt]
    exact Nat.lt_succ_of_le hcount
  have hne : rest ≠ mods.flatMap entry := fun heq => hne (by rw [heq])
  refine ⟨_, _, rfl, ?_⟩
  rw [hlen]
  exact decodeModules_of_prefix hmods hrest hne

/-- Entries that were read are what stands in the payload. -/
theorem entry_of_fields {nameLen lo hi : UInt8} {name params : Bytes}
    (hname : name.length = nameLen.toNat) (hparams : params.length = lo.toNat ||| hi.toNat <<< 8) :
    entry (name, params) = nameLen :: (name ++ (lo :: hi :: params)) ∧ Sized (name, params) := by
  have hlo := lo.toNat_lt
  have hhi := hi.toNat_lt
  rw [Bits.or_shiftLeft (k := 8) hlo] at hparams
  have hlow : UInt8.ofNat params.length = lo := by
    apply UInt8.toNat_inj.mp
    rw [UInt8.toNat_ofNat']
    omega
  have hhigh : UInt8.ofNat (params.length / 256) = hi := by
    apply UInt8.toNat_inj.mp
    rw [UInt8.toNat_ofNat']
    omega
  constructor
  · rw [entry, hname, UInt8.ofNat_toNat, hlow, hhigh]
  · have := nameLen.toNat_lt
    constructor
    · dsimp only
      omega
    · dsimp only
      omega

theorem decodeModules_exact {n : Nat} {bytes : Bytes}
    (hall : (decodeModules n bytes).1.length = n) :
    bytes = (decodeModules n bytes).1.flatMap entry ++ (decodeModules n bytes).2 ∧
      ∀ m ∈ (decodeModules n bytes).1, Sized m := by
  fun_induction decodeModules n bytes with
  | case1 bytes => exact ⟨rfl, nofun⟩
  | case2 => cases hall
  | case3 => cases hall
  | case4 => cases hall
  | case5 n nameLen rest hlong lo hi params hdrop plen hparams next ih =>
      obtain ⟨htail, hsized⟩ := ih (by simpa using hall)
      obtain ⟨hentry, hm⟩ := @entry_of_fields nameLen lo hi (rest.take nameLen.toNat)
        (params.take plen) (by rw [List.length_take]; omega) (by rw [List.length_take]; omega)
      constructor
      · rw [List.flatMap_cons, hentry, List.append_assoc, ← htail, List.cons_append,
          List.append_assoc, List.cons_append, List.cons_append, List.take_append_drop, ← hdrop,
          List.take_append_drop]
      · intro m hmem
        rcases List.mem_cons.mp hmem with rfl | hmem
        · exact hm
        · exact hsized m hmem
  | case6 => cases hall

/-- A payload that is read to its end, with all the modules it announces, is complete. -/
theorem complete_of_decodeModules {count : UInt8} {rest : Bytes}
    (hall : (decodeModules count.toNat rest).1.length = count.toNat)
    (hend : (decodeModules count.toNat rest).2 = []) : Complete (count :: rest) := by
  obtain ⟨hbytes, hsized⟩ := decodeModules_exact hall
  refine ⟨_, ?_, hsized, ?_⟩
  · have := count.toNat_lt
    omega
  · rw [chainConfig_eq, hall, UInt8.ofNat_toNat]
    rw [hend, List.append_nil] at hbytes
    rw [← hbytes]

theorem length_decodeModules_le (n : Nat) (bytes : Bytes) :
    (decodeModules n bytes).1.length ≤ n := by
  fun_induction decodeModules n bytes with
  | case5 n nameLen rest hlong lo hi params hdrop plen hparams next ih =>
      rw [List.length_cons]
      exact Nat.succ_le_succ ih
  | _ => exact Nat.zero_le _

/-! ## Rejecting a payload -/

/-- The chains that a session has created so far. -/
def chainsCreated (core : Core) : Nat := core.log.count .chainCreated

/-- The `MSG_CHAIN_READY` messages that a session has sent so far. -/
def chainReadies (core : Core) : Nat :=
  (core.controlSent.filter (·.type = MSG_CHAIN_READY)).length

/-- `handle_chain_create` creates no chain, from the announced modules or from some of them,
leaves `chain_` and `state_` alone or disconnects, and sends no `MSG_CHAIN_READY`. -/
structure Rejects (w : World) (core : Core) (pkt : Packet) : Prop where
  chains : chainsCreated (Lifecycle.handleChainCreate w core pkt) = chainsCreated core
  kept : (Lifecycle.handleChainCreate w core pkt).chain = core.chain ∧
      (Lifecycle.handleChainCreate w core pkt).state = core.state ∨
    (Lifecycle.handleChainCreate w core pkt).state = .disconnected
  silent : chainReadies (Lifecycle.handleChainCreate w core pkt) = chainReadies core

section Created

variable (w : World) (core : Core)

@[simp] theorem chainsCreated_sendControl (pkt : Packet) :
    chainsCreated (core.sendControl pkt) = chainsCreated core := by
  unfold Core.sendControl
  split_ifs <;> rfl

theorem chainsCreated_openTarget (connId : UInt8) (target : Lifecycle.TargetConn) :
    chainsCreated (Lifecycle.openTarget core connId target) = chainsCreated core := by
  simp [chainsCreated, Lifecycle.openTarget, Core.note, List.count_append]

theorem chainsCreated_reconnectTarget (saved : UInt8 × Bytes) :
    chainsCreated (Lifecycle.reconnectTarget w core saved) = chainsCreated core := by
  unfold Lifecycle.reconnectTarget Lifecycle.setupTunnelTarget
  split_ifs
  · rfl
  · split
    · exact chainsCreated_openTarget _ _ _
    · rfl
  · rfl

theorem chainsCreated_transmitReady :
    chainsCreated (Lifecycle.transmitReady w core) = chainsCreated core := by
  rw [Lifecycle.transmitReady, chainsCreated_sendControl, Lifecycle.processPendingReconnectTargets]
  have hfold : ∀ (saved : List (UInt8 × Bytes)) (core : Core),
      chainsCreated (saved.foldl (Lifecycle.reconnectTarget w) core) = chainsCreated core := by
    intro saved
    induction saved with
    | nil => exact fun core => rfl
    | cons first rest ih =>
        intro core
        rw [List.foldl_cons, ih, chainsCreated_reconnectTarget]
  rw [hfold]
  rfl

theorem chainsCreated_checkReady :
    chainsCreated (Lifecycle.checkReady w core) = chainsCreated core := by
  unfold Lifecycle.checkReady
  split_ifs
  · exact chainsCreated_transmitReady w core
  · rfl

theorem chainsCreated_announceChain (extra : Nat) :
    chainsCreated (Lifecycle.announceChain w core extra) = chainsCreated core := by
  have hpending : chainsCreated (Lifecycle.processPendingDataConns w core) = chainsCreated core :=
    chainsCreated_checkReady w _
  unfold Lifecycle.announceChain
  dsimp only
  split_ifs
  · rw [chainsCreated_transmitReady, chainsCreated_sendControl, chainsCreated_checkReady, hpending]
  · rw [chainsCreated_transmitReady, chainsCreated_sendControl, hpending]
  · rw [chainsCreated_sendControl, chainsCreated_checkReady, hpending]
  · rw [chainsCreated_sendControl, hpending]

theorem chainsCreated_become (st : Server.State) :
    chainsCreated (core.become st) = chainsCreated core := by
  simp [chainsCreated, Core.become, Core.note, List.count_append]

theorem chainsCreated_startChain (extra : Nat) :
    chainsCreated (Lifecycle.startChain w core extra) = chainsCreated core := by
  rw [Lifecycle.startChain, chainsCreated_announceChain]
  exact chainsCreated_become core .running

/-- A payload with a count always makes a chain. -/
theorem chainsCreated_handleChainCreate {pkt : Packet} (hsome : pkt.payload ≠ []) :
    chainsCreated (Lifecycle.handleChainCreate w core pkt) = chainsCreated core + 1 := by
  obtain ⟨count, rest, hpayload⟩ := List.exists_cons_of_ne_nil hsome
  have hnote : chainsCreated ({ core with chain := true }.note .chainCreated) =
      chainsCreated core + 1 := by
    simp [chainsCreated, Core.note, List.count_append]
  simp only [handleChainCreate_eq, hpayload, decodeChain]
  split_ifs
  · rw [chainsCreated_become, hnote]
  · rw [chainsCreated_startChain, hnote]

end Created

/-- Of the payloads that are not complete only the empty one is rejected. From every other one
a chain is made, of fewer modules than announced or in front of bytes that nobody reads. -/
theorem rejects_iff (w : World) (core : Core) {pkt : Packet} (hcut : ¬ Complete pkt.payload) :
    (Rejects w core pkt ↔ pkt.payload = []) ∧
      ∀ count rest, pkt.payload = count :: rest →
        (decodeModules count.toNat rest).1.length < count.toNat ∨
          (decodeModules count.toNat rest).2 ≠ [] := by
  constructor
  · constructor
    · intro hrejects
      by_contra hsome
      have hchains := hrejects.chains
      rw [chainsCreated_handleChainCreate w core hsome] at hchains
      omega
    · intro hempty
      have hsame : Lifecycle.handleChainCreate w core pkt = core := by
        simp only [handleChainCreate_eq, hempty, decodeChain]
      constructor
      · rw [hsame]
      · left
        rw [hsame]
        exact ⟨rfl, rfl⟩
      · rw [hsame]
  · intro count rest hpayload
    by_contra hnot
    obtain ⟨hall, hend⟩ := not_or.mp hnot
    have hle := length_decodeModules_le count.toNat rest
    apply hcut
    rw [hpayload]
    exact complete_of_decodeModules (by omega) (not_not.mp hend)

/-- A server that has no modules with extra outputs and nothing to connect to. -/
def plainWorld : World where
  sessionId := 7
  password := []
  challenge1 := []
  hexSha256 := id
  hasModule := fun _ => true
  extraOutputs := fun _ => 0
  nextConnId := fun _ => 0
  connect := fun _ _ _ => .fails

/-- A session that waits for the chain, with its data connection open. -/
def waitingCore : Core := { state := .awaitChainCreate, dataConnections := [{ fd := some 5 }] }

theorem not_complete_nil : ¬ Complete [] := by
  rintro ⟨mods, -, -, hpayload⟩
  cases hpayload

/-- A payload without a count changes nothing. -/
theorem rejects_iff_empty :
    ¬ Complete (⟨MSG_CHAIN_CREATE, []⟩ : Packet).payload ∧
      Rejects plainWorld waitingCore ⟨MSG_CHAIN_CREATE, []⟩ :=
  ⟨not_complete_nil, (rejects_iff plainWorld waitingCore not_complete_nil).1.mpr rfl⟩

/-- Two modules announced and the second cut off: the session runs with the first alone and
tells the client that the chain is ready. -/
theorem runs_without_last_module :
    decodeChain [2, 1, 97, 0, 0, 3, 98] = some ([([97], [])], [98]) ∧
      ¬ Complete [2, 1, 97, 0, 0, 3, 98] ∧
      ¬ Rejects plainWorld waitingCore ⟨MSG_CHAIN_CREATE, [2, 1, 97, 0, 0, 3, 98]⟩ ∧
      (Lifecycle.handleChainCreate plainWorld waitingCore
        ⟨MSG_CHAIN_CREATE, [2, 1, 97, 0, 0, 3, 98]⟩).state = .running ∧
      chainReadies (Lifecycle.handleChainCreate plainWorld waitingCore
        ⟨MSG_CHAIN_CREATE, [2, 1, 97, 0, 0, 3, 98]⟩) = 1 := by
  have hread : decodeChain [2, 1, 97, 0, 0, 3, 98] = some ([([97], [])], [98]) := by decide
  refine ⟨hread, ?_, ?_, rfl, rfl⟩
  · rintro ⟨mods, hcount, hmods, hpayload⟩
    rw [hpayload, decodeChain_chainConfig hcount hmods] at hread
    cases hread
  · intro hrejects
    exact absurd hrejects.chains (by decide)

end PipelineTunnel.Setup
