import Ntfw.Tool.Ntfw
import Ntfw.Ntfe.Reads
import Ntfw.Lib.Numeral
import Mathlib.Data.List.TakeWhile

set_option autoImplicit false

/-! # Loading a configuration (`ntfw/dlgrules.cpp`, `ntfw/ntfw.cpp`, `ntfw/helper.cpp`)

`RulesUpload` makes entries of the rules of an image and puts the first page of them in the
controls. It is a program over the image, which therefore says what it reads; a store outside
the array of entries, or of a text that its buffer does not hold, is an error. -/

namespace Ntfw.Tool

open Reads (ReadExec)

/-! ## Texts -/

/-- The character of a digit, as `%X` and `itoa` write it. -/
def digitChar (d : Nat) : byte := BitVec.ofNat 8 (if d < 10 then 0x30 + d else 0x41 + (d - 10))

/-- `sprintf` with the format `%X`. -/
def hexText (n : Nat) : List byte := (Numeral.write 16 n).map digitChar

/-- `itoa` to the base 10. -/
def itoa (v : Int) : List byte :=
  let text := (Numeral.write 10 v.natAbs).map digitChar
  if v < 0 then 0x2D :: text else text

/-- White space in front of a number. -/
def isSpace (c : byte) : Bool := c == 0x20 || (0x09 ≤ c && c ≤ 0x0D)

/-- The number so far, up to the first character that is no digit. -/
def atoiDigits : List byte → Nat → Nat
  | [], n => n
  | c :: cs, n => if 0x30 ≤ c ∧ c ≤ 0x39 then atoiDigits cs (10 * n + (c - 0x30).toNat) else n

/-- `atoi`; a number that an `int` does not hold saturates. -/
def atoi (text : List byte) : Int :=
  match text.dropWhile isSpace with
  | [] => 0
  | c :: cs =>
      if c = 0x2D then max (-(atoiDigits cs 0 : Int)) (-0x80000000)
      else if c = 0x2B then min (atoiDigits cs 0 : Int) 0x7FFFFFFF
      else min (atoiDigits (c :: cs) 0 : Int) 0x7FFFFFFF

/-- `Edit_GetTextInt`, whose buffer holds 64 bytes with the terminating zero. -/
def editGetTextInt (text : List byte) : Int := atoi (text.take 63)

/-- `Edit_SetTextInt`. -/
def editSetTextInt (v : Int) : List byte := itoa v

/-! ## Controls -/

/-- A text in a buffer of `MAX_PROTO_NAME` bytes: up to its first zero, and what there is room
for. -/
def Proto.ofText (text : List byte) : Proto where
  chars := (text.takeWhile (· != 0)).take (MAX_PROTO_NAME - 1)
  fits := Nat.lt_of_le_of_lt (List.length_take_le _ _) (by decide)
  nonzero := fun c hc => by simpa using List.mem_takeWhile_imp (List.mem_of_mem_take hc)

/-- The texts in the controls of one line of the page. -/
structure Line where
  proto : List byte
  port : List byte
  byteCost : List byte
  packetCost : List byte
  synCost : List byte
  byteMeter : List byte
  packetMeter : List byte
  synMeter : List byte

/-- `Synchronize`, from the controls. -/
def synchronizeDown (line : Line) : Rule where
  proto := .ofText line.proto
  port := BitVec.ofInt 16 (editGetTextInt line.port)
  byteCost := BitVec.ofInt 16 (editGetTextInt line.byteCost)
  packetCost := BitVec.ofInt 16 (editGetTextInt line.packetCost)
  synCost := BitVec.ofInt 16 (editGetTextInt line.synCost)
  byteMeter := (BitVec.ofInt 16 (editGetTextInt line.byteMeter)).setWidth 2
  packetMeter := (BitVec.ofInt 16 (editGetTextInt line.packetMeter)).setWidth 2
  synMeter := (BitVec.ofInt 16 (editGetTextInt line.synMeter)).setWidth 2

/-- `Synchronize`, to the controls. -/
def synchronizeUp (rl : Rule) : Line where
  proto := rl.proto.chars
  port := editSetTextInt rl.port.toNat
  byteCost := editSetTextInt rl.byteCost.toNat
  packetCost := editSetTextInt rl.packetCost.toNat
  synCost := editSetTextInt rl.synCost.toNat
  byteMeter := editSetTextInt rl.byteMeter.toNat
  packetMeter := editSetTextInt rl.packetMeter.toNat
  synMeter := editSetTextInt rl.synMeter.toNat

/-- The page at a position, in controls that return the text last put in them. -/
def pageAt (rules : Fin MAX_RULES → Rule) (pos : Fin (MAX_RULES - RULE_PAGE_SZ + 1))
    (i : Fin RULE_PAGE_SZ) : Rule :=
  synchronizeDown (synchronizeUp (rules ⟨pos.val + i.val,
    Nat.lt_of_lt_of_le (Nat.add_lt_add_of_le_of_lt (Nat.le_of_lt_succ pos.isLt) i.isLt)
      (by decide)⟩))

/-- The position of the scroll bar that shows the first entry. -/
def scrollTop : Fin (MAX_RULES - RULE_PAGE_SZ + 1) := ⟨0, Nat.succ_pos _⟩

/-- The entries, with the page at a position shown. -/
def Dialog.showing (rules : Fin MAX_RULES → Rule) (pos : Fin (MAX_RULES - RULE_PAGE_SZ + 1)) :
    Dialog := ⟨rules, pos, pageAt rules pos⟩

/-- `Scroll`, from the position of the scroll bar. -/
def scroll (dlg : Dialog) (newPos : Int) : Dialog :=
  .showing dlg.synchronized
    ⟨min newPos.toNat (MAX_RULES - RULE_PAGE_SZ), Nat.lt_succ_of_le (Nat.min_le_right _ _)⟩

/-! ## The image -/

def l4ToStr : List (u8 × List byte) :=
  [(IP_P_ICMP, ascii "icmp"), (IP_P_IGMP, ascii "igmp"), (IP_P_IPIP, ascii "ipip"),
    (IP_P_TCP, ascii "tcp"), (IP_P_EGP, ascii "egp"), (IP_P_PUP, ascii "pup"),
    (IP_P_UDP, ascii "udp"), (IP_P_DCCP, ascii "dccp"), (IP_P_RSVP, ascii "rsvp"),
    (IP_P_SCTP, ascii "sctp"), (IP_P_LDP, ascii "ldp")]

def l3ToStr : List (u16 × List byte) :=
  [(ETH_P_IP, ascii "ip"), (ETH_P_ARP, ascii "arp"), (ETH_P_IPV6, ascii "ip6"),
    (ETH_P_IPX, ascii "ipx"), (ETH_P_8021Q, ascii "802.1q"), (ETH_P_PTP, ascii "ptp")]

/-- The text of a protocol: its name, or its number if it has none. -/
def l4Text (proto : u8) : List byte := (l4ToStr.lookup proto).getD (hexText proto.toNat)
def l3Text (ether : le16) : List byte := (l3ToStr.lookup ether).getD (hexText ether.toNat)

/-- The text that the rule at the cursor `src` is to have in its entry. -/
def protoText (src : Nat) : Reader (List byte) := do
  let ether ← Reader.le16 src
  if ether ≠ ETH_P_IP then pure (l3Text ether)
  else
  let proto ← Reader.byte (src + 10)
  pure (l4Text proto)

/-- The entry of the rule at the cursor `src`. -/
def uploadRule (src : Nat) : ReadExec Rule := do
  let text ← protoText src
  if text.length < MAX_PROTO_NAME then do
    let dport ← Reader.le16 (src + 2)
    let byte_scale ← Reader.le16 (src + 4)
    let packet_scale ← Reader.le16 (src + 6)
    let syn_scale ← Reader.le16 (src + 8)
    let byte_tb ← Reader.byte (src + 11)
    let packet_tb ← Reader.byte (src + 12)
    let syn_tb ← Reader.byte (src + 13)
    pure ⟨.ofText text, dport, byte_scale, packet_scale, syn_scale, byte_tb.setWidth 2,
      packet_tb.setWidth 2, syn_tb.setWidth 2⟩
  else throw .outOfBounds

/-- The loop of `RulesUpload`: rules to go, the index, and the cursor. -/
def uploadRules : Nat → Nat → Nat → (Fin MAX_RULES → Rule) → ReadExec (Fin MAX_RULES → Rule)
  | 0, _, _, rules => pure rules
  | n + 1, i, src, rules =>
      if h : i < MAX_RULES then do
        let dst ← uploadRule src
        uploadRules n (i + 1) (src + SZ_NTFE_RULE) (Function.update rules ⟨i, h⟩ dst)
      else throw .outOfBounds

theorem Proto.nil_fits : ([] : List byte).length < MAX_PROTO_NAME := by decide

/-- An entry that is not defined. -/
def Rule.zero : Rule := ⟨⟨[], Proto.nil_fits, nofun⟩, 0, 0, 0, 0, 0, 0, 0⟩

/-- `RulesUpload`. -/
def rulesUpload : ReadExec Dialog := do
  let rule_count ← Reader.le32 88
  let rules ← uploadRules rule_count.toNat 0 SZ_NTFE_CONFIG fun _ => .zero
  pure (.showing rules scrollTop)

/-- The buffer that a file is loaded in. -/
def loadBuffer (file : File) : NtfeConfig :=
  fun i => if i < min file.length MAX_NTFE_CFG_SZ then file.data i else 0

/-- `LoadNtfeConfiguration`, of a file that can be opened and read: the dialog it leaves. -/
def loadNtfeConfiguration (file : File) : Exec Dialog := rulesUpload.run.value (loadBuffer file)

end Ntfw.Tool
