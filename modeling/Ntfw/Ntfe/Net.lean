import Ntfw.Common.Pce
import Ntfw.Lib.Memory

set_option autoImplicit false

/-! # Protocol headers (`ntfe/net.h`)

A frame is the memory its data pointer points to; the packed headers of `net_frame` are
loads at fixed offsets of it. Multi-byte fields come out as the machine loads them, so the
big-endian ones are still byte swapped. -/

namespace Ntfw

def ETH_P_IP : u16 := 0x0800
def ETH_P_ARP : u16 := 0x0806
def ETH_P_8021Q : u16 := 0x8100
def ETH_P_IPX : u16 := 0x8137
def ETH_P_IPV6 : u16 := 0x86DD
def ETH_P_PTP : u16 := 0x88F7

def IP_IHL_MIN : BitVec 4 := 5

def IP_MF : u16 := 0x2000
def IP_OFFSET : u16 := 0x1FFF

def IP_P_ICMP : u8 := 0x01
def IP_P_IGMP : u8 := 0x02
def IP_P_IPIP : u8 := 0x04
def IP_P_TCP : u8 := 0x06
def IP_P_EGP : u8 := 0x08
def IP_P_PUP : u8 := 0x0C
def IP_P_UDP : u8 := 0x11
def IP_P_DCCP : u8 := 0x21
def IP_P_RSVP : u8 := 0x2E
def IP_P_SCTP : u8 := 0x84
def IP_P_LDP : u8 := 0x88

/-! ## Header sizes -/

def SZ_ETH_HDR : Nat := 14
def SZ_IP_HDR : Nat := 20
def SZ_UDP_HDR : Nat := 8

/-- Offset of the transport header: options are not supported, so it is fixed. -/
def L4_OFS : Nat := SZ_ETH_HDR + SZ_IP_HDR

/-! ## The assumed frame layout -/

abbrev NetFrame := Mem

namespace NetFrame

def ethProto (f : NetFrame) : be16 := f.le16 12
def ipIhl (f : NetFrame) : BitVec 4 := (f SZ_ETH_HDR).extractLsb' 0 4
def ipLen (f : NetFrame) : be16 := f.le16 (SZ_ETH_HDR + 2)
def ipFragOff (f : NetFrame) : be16 := f.le16 (SZ_ETH_HDR + 6)
def ipProto (f : NetFrame) : u8 := f (SZ_ETH_HDR + 9)
def ipSaddr (f : NetFrame) : be32 := f.le32 (SZ_ETH_HDR + 12)
def ipDaddr (f : NetFrame) : be32 := f.le32 (SZ_ETH_HDR + 16)

/-- The source port; UDP has it at the same place. -/
def tcpSport (f : NetFrame) : be16 := f.le16 L4_OFS

/-- The destination port; UDP has it at the same place. -/
def tcpDport (f : NetFrame) : be16 := f.le16 (L4_OFS + 2)

def udpLen (f : NetFrame) : be16 := f.le16 (L4_OFS + 4)

end NetFrame

/-- The protocols whose port fields the engine reads. -/
def hasPorts (proto : u8) : Bool :=
  proto == IP_P_UDP || proto == IP_P_TCP || proto == IP_P_LDP

end Ntfw
