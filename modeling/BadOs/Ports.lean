import BadOs.Data.Access
import Mathlib.Data.BitVec

/-!
# Ports

The accesses of `common.c`. A port is an element of any type: what a driver adds to the base of
its device.
-/

namespace BadOs

inductive PortAccess (P : Type) where
  | inb (port : P)
  | inw (port : P)
  | inl (port : P)
  | outb (port : P) (v : BitVec 8)

abbrev PortAccess.Answer {P : Type} : PortAccess P → Type
  | .inb _ => BitVec 8
  | .inw _ => BitVec 16
  | .inl _ => BitVec 32
  | .outb _ _ => Unit

abbrev PortProg (P : Type) := Prog (PortAccess P) PortAccess.Answer

variable {P : Type}

def inb (port : P) : PortProg P (BitVec 8) := Prog.call (PortAccess.inb port)

def inw (port : P) : PortProg P (BitVec 16) := Prog.call (PortAccess.inw port)

def inl (port : P) : PortProg P (BitVec 32) := Prog.call (PortAccess.inl port)

def outb (port : P) (v : BitVec 8) : PortProg P Unit := Prog.call (PortAccess.outb port v)

end BadOs
