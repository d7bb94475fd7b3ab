import Pisces.ByteMemory

/-! # A received long call

The bytes from the start of a message on.  They lie in memory, which a handler
may change while it still reads them.
-/

namespace Pisces.Dispatch

def u32At (bytes : Nat → UInt8) (offset : Nat) : UInt32 :=
  (bytes offset).toUInt32 ||| ((bytes (offset + 1)).toUInt32 <<< 8) ||| ((bytes (offset + 2)).toUInt32 <<< 16) |||
    ((bytes (offset + 3)).toUInt32 <<< 24)

def u64At (bytes : Nat → UInt8) (offset : Nat) : UInt64 :=
  (u32At bytes offset).toUInt64 ||| ((u32At bytes (offset + 4)).toUInt64 <<< 32)

/-- A field depends on its bytes only. -/
theorem u32At_congr {bytes others : Nat → UInt8} {offset : Nat}
    (same : ∀ index, offset ≤ index → index < offset + 4 → bytes index = others index) :
    u32At bytes offset = u32At others offset := by
  simp only [u32At, same offset (by omega) (by omega), same (offset + 1) (by omega) (by omega),
    same (offset + 2) (by omega) (by omega), same (offset + 3) (by omega) (by omega)]

theorem u64At_congr {bytes others : Nat → UInt8} {offset : Nat}
    (same : ∀ index, offset ≤ index → index < offset + 8 → bytes index = others index) :
    u64At bytes offset = u64At others offset := by
  rw [u64At, u64At, u32At_congr fun index lower upper => same index lower (by omega),
    u32At_congr fun index lower upper => same index (by omega) (by omega)]

/-- Where the message lies, and memory as the direct mapping shows it -/
structure Message where
  address : UInt64
  memory : ByteMemory

namespace Message

def byte (message : Message) (index : Nat) : UInt8 :=
  message.memory (message.address + .ofNat index)

instance : CoeFun Message fun _ => Nat → UInt8 := ⟨byte⟩

def u32At (message : Message) (offset : Nat) : UInt32 :=
  Dispatch.u32At message offset

def u64At (message : Message) (offset : Nat) : UInt64 :=
  Dispatch.u64At message offset

/-- The field `lcall` of `struct pisces_lcall`, which has 12 bytes. -/
def lcall (message : Message) : UInt64 :=
  message.u64At 0

/-- `char name[128]` of the PCI calls -/
def name (message : Message) : List UInt8 :=
  (List.range 128).map fun index => message (12 + index)

/-- These bytes at an address of their own, and zeros elsewhere -/
def of (bytes : List UInt8) : Message where
  address := 0x1000
  memory := fun place => bytes.getD (place - 0x1000).toNat 0

end Message

end Pisces.Dispatch
