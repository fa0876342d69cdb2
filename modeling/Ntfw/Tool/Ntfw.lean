import Ntfw.Tool.Dlgrules

set_option autoImplicit false

/-! # Saving a configuration (`ntfw/ntfw.cpp`) -/

namespace Ntfw.Tool

/-- A file: its bytes, and how many of them there are. -/
structure File where
  data : Mem
  length : Nat

/-- `WriteFile` at the start of a file, which is not truncated. -/
def File.write (file : File) (data : Mem) (n : Nat) : File where
  data := fun i => if i < n then data i else file.data i
  length := max file.length n

/-- The answers of the user to the two warnings. -/
structure Answers where
  noRules : Bool
  noArp : Bool

/-- The image `SaveNtfeConfiguration` starts from. -/
def emptyConfig : NtfeConfig :=
  setLength (setVersion (fun _ => 0) NTFE_CFG_VERSION) (BitVec.ofNat 16 SZ_NTFE_CONFIG)

/-- The rules are hashed, or the user confirms that there are none. -/
def prepareConfig (findRuleMagic : List NtfeRule → Option (u32 × u32)) (answers : Answers)
    (cfg : NtfeConfig) : Option NtfeConfig :=
  if cfg.rule_count = 0 then (if answers.noRules then some cfg else none)
  else
    (findRuleMagic cfg.rules).map fun (seed, hashsz) => setRuleHashsz (setRuleSeed cfg seed) hashsz

/-- `SaveNtfeConfiguration`, for the file at the path, or the empty one that opening it
creates, and for the number of bytes written, if the file can be opened. -/
def saveNtfeConfiguration (findRuleMagic : List NtfeRule → Option (u32 × u32)) (dlg : Dialog)
    (answers : Answers) (file : File) (written : Option Nat) : Bool × File :=
  let cfg := (rulesDownload dlg emptyConfig).2
  match prepareConfig findRuleMagic answers cfg with
  | none => (false, file)
  | some cfg =>
      if !(cfg.rules.any fun rl => rl.ether == ETH_P_ARP) && !answers.noArp then (false, file)
      else
      match written with
      | none => (false, file)
      | some n => (n == cfg.length.toNat, file.write cfg n)

end Ntfw.Tool
