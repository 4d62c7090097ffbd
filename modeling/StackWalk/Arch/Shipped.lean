import StackWalk.Arch

/-!
# The shipped architectures

Tables for x86-64, AArch64 and 32-bit x86, with the signal layouts of their
64-bit kernels.
-/

namespace StackWalk.Arch

/-- A jump through a table slot, a push of the slot's number and a jump to the
resolver. -/
def x86_64Plt : List (Option UInt8) :=
  [some 0xff, some 0x25, none, none, none, none, some 0x68, none, none, none, none, some 0xe9]

/-- The trampoline loads the system call number and enters the kernel; the
general registers of the interrupted code begin 40 bytes above its stack
pointer. -/
def x86_64Signal : SignalLayout where
  trampoline := [0x48, 0xc7, 0xc0, 0x0f, 0x00, 0x00, 0x00, 0x0f, 0x05]
  contextOffset := 40
  registers :=
    [(0, 0x68), (1, 0x60), (2, 0x70), (3, 0x58), (4, 0x48), (5, 0x40), (6, 0x50), (7, 0x78),
      (8, 0x00), (9, 0x08), (10, 0x10), (11, 0x18), (12, 0x20), (13, 0x28), (14, 0x30),
      (15, 0x38), (16, 0x80)]

/-- The trampoline loads the system call number and enters the kernel; the
registers of the interrupted code lie behind the signal information, in order
of their columns. -/
def aarch64Signal : SignalLayout where
  trampoline := [0x68, 0x11, 0x80, 0xd2, 0x01, 0x00, 0x00, 0xd4]
  contextOffset := 128 + 184
  registers := (List.range 33).map fun reg => (reg, UInt64.ofNat (8 * reg))

/-- Column 16 is the return address, columns 17 to 32 are the vector
registers. -/
def x86_64 : Arch where
  name := "x86_64"
  numRegs := 33
  addressSize := 8
  endian := .little
  ip := 16
  sp := 7
  fp := some 6
  lr := none
  returnAddress := 16
  fpStart := 17
  fpEnd := 33
  fpSize := 16
  ipAlignment := 1
  windowSave := none
  raSignBits := 0
  pltEntry := some x86_64Plt
  signalFrame := some x86_64Signal

/-- Column 32 stands for the program counter, columns 64 to 95 are the vector
registers, and the return address is in column 30.  Addresses of programs have
48 bits, the others of a return address may hold its signature. -/
def aarch64 : Arch where
  name := "aarch64"
  numRegs := 96
  addressSize := 8
  endian := .little
  ip := 32
  sp := 31
  fp := some 29
  lr := some 30
  returnAddress := 30
  fpStart := 64
  fpEnd := 96
  fpSize := 8
  ipAlignment := 4
  windowSave := some .negateRaState
  raSignBits := 0xffff000000000000
  pltEntry := none
  signalFrame := some aarch64Signal

/-- Column 8 is the instruction pointer; there are no floating-point columns. -/
def x86 : Arch where
  name := "x86"
  numRegs := 9
  addressSize := 4
  endian := .little
  ip := 8
  sp := 4
  fp := some 5
  lr := none
  returnAddress := 8
  fpStart := 9
  fpEnd := 9
  fpSize := 0
  ipAlignment := 1
  windowSave := none
  raSignBits := 0
  pltEntry := none
  signalFrame := none

def shipped : List Arch :=
  [x86_64, aarch64, x86]

end StackWalk.Arch
