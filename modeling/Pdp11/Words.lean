import Mathlib.Algebra.Group.Nat.Defs
import Mathlib.Logic.Function.Basic
import Mathlib.Data.Nat.Notation

namespace Pdp11

/-- A 16-bit machine word; virtual addresses are words too. -/
abbrev Word := BitVec 16

abbrev Byte := BitVec 8

/-- Physical addresses are kept in a `uint32_t`, of which the machine decodes 22 bits. -/
abbrev PhysAddr := BitVec 32

/-- A 64-bit emulated time in nanoseconds. -/
abbrev Time := BitVec 64

/-- A general register number, or an operand's addressing mode. -/
abbrev Field3 := BitVec 3

abbrev regSp : Field3 := 6
abbrev regPc : Field3 := 7

/-- A processor mode: 0 Kernel, 1 Supervisor, 3 User; 2 is unused. -/
abbrev Mode := BitVec 2

abbrev pswC : Word := 0o000001
abbrev pswV : Word := 0o000002
abbrev pswZ : Word := 0o000004
abbrev pswN : Word := 0o000010
abbrev pswT : Word := 0o000020

abbrev vecBus : Word := 0o004
abbrev vecReserved : Word := 0o010
abbrev vecBpt : Word := 0o014
abbrev vecIot : Word := 0o020
abbrev vecEmt : Word := 0o030
abbrev vecTrap : Word := 0o034
abbrev vecPirq : Word := 0o240
abbrev vecFpe : Word := 0o244
abbrev vecMme : Word := 0o250

abbrev mmr0Mme : Word := 0o000001
abbrev mmr0Ic : Word := 0o000200
abbrev mmr0Page : Word := 0o000176
abbrev mmr0Ro : Word := 0o020000
abbrev mmr0Pl : Word := 0o040000
abbrev mmr0Nr : Word := 0o100000
abbrev mmr0Freeze : Word := 0o160000
abbrev mmr3Uds : Word := 0o000001
abbrev mmr3Sds : Word := 0o000002
abbrev mmr3Kds : Word := 0o000004
abbrev mmr3M22e : Word := 0o000020
abbrev mmr3Bme : Word := 0o000040
abbrev pdrAcf : Word := 0o000007
abbrev pdrEd : Word := 0o000010
abbrev pdrW : Word := 0o000100
abbrev pdrA : Word := 0o000200
abbrev pdrPlf : Word := 0o077400
abbrev pamask22 : PhysAddr := 0o17777777
abbrev iopageTop : PhysAddr := 0o17760000

abbrev cpuerrRed : Word := 0o000004
abbrev cpuerrYel : Word := 0o000010

/-- The current mode field of a PSW. -/
def curMode (psw : Word) : Mode := psw.extractLsb' 14 2

/-- The previous mode field of a PSW. -/
def prevMode (psw : Word) : Mode := psw.extractLsb' 12 2

/-- The register set field of a PSW. -/
def regSet (psw : Word) : BitVec 1 := psw.extractLsb' 11 1

/-- The processor priority field of a PSW. -/
def priority (psw : Word) : BitVec 3 := psw.extractLsb' 5 3

end Pdp11
