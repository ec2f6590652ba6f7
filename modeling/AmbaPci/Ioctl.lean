import AmbaPci.ByteMemory

set_option autoImplicit false

/- The user-space interface: `include/amba_pci_ioctl.h`. -/
namespace AmbaPci

open ByteMemory (Byte)

abbrev ambaPciDevMax : Nat := 4

instance : NeZero ambaPciDevMax := ⟨by decide⟩

def ambaPciTargetVendorId : BitVec 16 := 0x2134
def ambaPciTargetDeviceId : BitVec 16 := 0x0006
def ambaPciVirtioDeviceId : BitVec 16 := 0x0500

def enodev : Int := 19
def eio : Int := 5
def enxio : Int := 6
def enomem : Int := 12
def efault : Int := 14
def ebusy : Int := 16
def einval : Int := 22
def enotty : Int := 25
def etimedout : Int := 110

/-- `enum amba_pci_dev_state`. -/
inductive DevState
  | disconnected
  | booting
  | rebooting
  | connected
  | bootFailed
  deriving DecidableEq, Repr

def ambaPciFwImageDtb : BitVec 32 := 0
def ambaPciFwImageRootfs : BitVec 32 := 1
def ambaPciFwImageKernel : BitVec 32 := 2

abbrev ambaPciFwImageMax : Nat := 3

/-- `struct amba_pci_fw_image_desc`; `type` is any 32-bit value user space writes. -/
structure FwImageDesc where
  type : BitVec 32
  offset : BitVec 64
  length : BitVec 64
  deriving DecidableEq, Repr

/-- `struct amba_pci_fw_xfer`. -/
structure FwXfer where
  slotId : BitVec 32
  fwSize : BitVec 64
  fwUserPtr : BitVec 64
  images : Vector FwImageDesc ambaPciFwImageMax
  deriving DecidableEq, Repr

abbrev ambaPciPathMax : Nat := 256

/-- `struct amba_pci_h2d_send_file`. -/
structure H2dSendFile where
  slotId : BitVec 32
  epAddr : BitVec 64
  path : Vector Byte ambaPciPathMax
  deriving DecidableEq, Repr

/-- `struct amba_pci_h2d_send_buffer`. -/
structure H2dSendBuffer where
  slotId : BitVec 32
  srcUserPtr : BitVec 64
  size : BitVec 64
  epAddr : BitVec 64
  deriving DecidableEq, Repr

/-- `struct amba_pci_dev_info`. -/
structure DevInfo where
  id : BitVec 32
  slotId : BitVec 32
  state : DevState
  isValid : BitVec 32
  ip : BitVec 32 := 0
  poc : BitVec 32 := 0
  dramSizeMb : BitVec 32 := 0
  vendor : BitVec 32 := 0
  device : BitVec 32 := 0
  dramType : List Byte := []
  fwVers : List Byte := []
  deriving DecidableEq, Repr

end AmbaPci
