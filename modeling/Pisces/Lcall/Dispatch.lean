import Pisces.Fs.Allocation
import Pisces.Pci.Iommu

/-! # The dispatcher of long calls

The `switch` of `lcall_kern_thread` on a received message, with every handler
behind it.
-/

namespace Pisces.Dispatch

/-- `struct pci_iommu_map_lcall` -/
def Message.regionLcall (message : Message) : Pci.RegionLcall where
  name := message.name
  regionStart := message.u64At 140
  regionEnd := message.u64At 148
  gpa := message.u64At 156

/-- The macros of the build that add cases. -/
structure Config where
  usingXpmem : Bool
  pciEnabled : Bool
  deriving DecidableEq

/-- The cases of the `switch`. -/
inductive Case where
  | vfsRead
  | vfsWrite
  | vfsOpen
  | vfsClose
  | vfsSize
  | xpmemCmdEx
  | iommuMap
  | iommuUnmap
  | pciAttach
  | pciDetach
  | pciAckIrq
  | pciCmd
  | unimplemented
  deriving DecidableEq

def Config.case (config : Config) (lcall : UInt64) : Case :=
  if lcall = 10000 then .vfsRead
  else if lcall = 10001 then .vfsWrite
  else if lcall = 10002 then .vfsOpen
  else if lcall = 10003 then .vfsClose
  else if lcall = 10004 then .vfsSize
  else if config.usingXpmem ∧ lcall = 20200 then .xpmemCmdEx
  else if config.pciEnabled ∧ lcall = 10104 then .iommuMap
  else if config.pciEnabled ∧ lcall = 10105 then .iommuUnmap
  else if config.pciEnabled ∧ lcall = 10102 then .pciAttach
  else if config.pciEnabled ∧ lcall = 10103 then .pciDetach
  else if config.pciEnabled ∧ lcall = 10100 then .pciAckIrq
  else if config.pciEnabled ∧ lcall = 10101 then .pciCmd
  else .unimplemented

/-- What the kernel services answer while a message is handled: the IOMMU turn
by turn. -/
structure Services where
  vfs : Fs.Vfs
  /-- the memory that the tables of the open handler get -/
  allocations : Fs.Allocations
  iommuAttach : Int
  iommuMap : Nat → Int
  iommuUnmap : Nat → UInt64
  /-- `xpmem_get_link_data` finds the link. -/
  xpmemLinkData : Bool

/-- The state of the enclave that the handlers use. -/
structure State where
  fs : Fs.State
  pci : Pci.State

/-- `pisces_xpmem_cmd_lcall`: the completion goes out before the delivery. -/
def piscesXpmemCmdLcall (services : Services) : List UInt64 :=
  if services.xpmemLinkData then [0] else [-1]

def State.afterFs (state : State) (outcome : Fs.Outcome) : List UInt64 × State :=
  (outcome.answers.map (·.status), { state with fs := outcome.state })

/-- `send_resp` of the PCI handlers widens the status. -/
def State.afterPci (state : State) (outcome : List Int × Pci.State) : List UInt64 × State :=
  (outcome.1.map UInt64.ofInt, { state with pci := outcome.2 })

/-- The open handler.  Nothing is sent from behind a table that is lost while it grows. -/
def vfsOpen (services : Services) (state : State) (message : Message) : List UInt64 × State :=
  match Fs.enclaveVfsOpenLcallWith services.allocations services.vfs state.fs (message.u32At 12)
    (fun index => message (16 + index)) with
  | some outcome => state.afterFs outcome
  | none => ([], state)

/-- The `switch`: the completions sent and the state, or `none` if the fuel runs out. -/
def dispatch (config : Config) (services : Services) (fuel : Nat) (state : State) (message : Message) :
    Option (List UInt64 × State) :=
  match config.case message.lcall with
  | .vfsRead => some (state.afterFs (Fs.enclaveVfsReadLcall services.vfs state.fs message))
  | .vfsWrite => some (state.afterFs (Fs.enclaveVfsWriteLcall services.vfs state.fs message))
  | .vfsOpen => some (vfsOpen services state message)
  | .vfsClose => some (state.afterFs (Fs.enclaveVfsCloseLcall state.fs (message.u64At 12)))
  | .vfsSize => some (state.afterFs (Fs.enclaveVfsSizeLcall services.vfs state.fs (message.u64At 12)))
  | .xpmemCmdEx => some (piscesXpmemCmdLcall services, state)
  | .iommuMap =>
      (Pci.enclavePciIommuMap (Pci.answering fun turn _ => services.iommuMap turn) fuel state.pci
        message.regionLcall 0).map fun (responses, _) => (responses.map UInt64.ofInt, state)
  | .iommuUnmap =>
      (Pci.enclavePciIommuUnmap (fun turn _ => (services.iommuUnmap turn, turn + 1)) fuel state.pci
        message.regionLcall 0).map fun (responses, _) => (responses.map UInt64.ofInt, state)
  | .pciAttach =>
      some (state.afterPci (Pci.enclavePciAttach state.pci message.name (message.u32At 140) services.iommuAttach))
  | .pciDetach => some (state.afterPci (Pci.enclavePciDetach state.pci message.name))
  | .pciAckIrq => some (state.afterPci (Pci.enclavePciAckIrq state.pci message.name))
  | .pciCmd => some (state.afterPci (Pci.enclavePciCmd state.pci message.name (message.u32At 140)))
  | .unimplemented => some ([-1], state)

/-- The file that an open request opens -/
def opened (services : Services) (message : Message) : UInt64 :=
  Fs.fileOpen services.vfs (fun index => message (16 + index)) (message.u32At 12)

variable {config : Config} {services : Services} {state : State} {message : Message}

def nic : Pci.Device where
  name := [0x6e, 0x69, 0x63]
  bus := 1
  devfn := 0
  ready := true
  assigned := false
  iommuEnabled := true
  deviceIpiVector := 0
  intxDisabled := true

end Pisces.Dispatch
