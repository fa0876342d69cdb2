import Ntfw.Engine.Calls

set_option autoImplicit false

/-! # Default deny

An IPv4 frame of an unauthorised host is accepted only if it is well formed and the image
applied last has a rule for it. -/

namespace Ntfw

/-- The image has a rule for IPv4 traffic of the protocol to the port, which is 0 for a
protocol without ports. -/
def HasRule (cfg : NtfeConfig) (proto : u8) (dport : be16) : Prop :=
  ∃ rl ∈ cfg.rules, etherLe16ToFs rl.ether = etherLe16ToFs ETH_P_IP ∧ rl.proto = proto
    ∧ rl.dport = if hasPorts proto then ntohs dport else 0

/-- The rules of the image are compiled to the signatures of the frames they are for. -/
theorem hasRule_iff (cfg : NtfeConfig) (proto : u8) (dport : be16) :
    HasRule cfg proto dport ↔ ∃ rl ∈ cfg.rules, rl.compile.fsig = ipv4Sig proto dport := by
  simp only [HasRule, compile_fsig_eq_ipv4Sig]

/-- Under an applied image, the receive path finds exactly the image's rules. -/
theorem Applies.rxFinds_iff {gs : Gs} {cfg : NtfeConfig} (h : Applies gs cfg) (proto : u8)
    (dport : be16) : Finds gs.toGsRom (ipv4Sig proto dport) ↔ HasRule cfg proto dport := by
  calc Finds gs.toGsRom (ipv4Sig proto dport)
      ↔ ∃ rl ∈ cfg.rules, rl.compile.fsig = ipv4Sig proto dport :=
        h.compiled.finds_iff (ipv4Sig_ne_zero proto dport)
    _ ↔ HasRule cfg proto dport := (hasRule_iff cfg proto dport).symm

/-- **Default deny.** After every run whose configurations succeed, an IPv4 frame is accepted
from a host without an authorised entry only if it is well formed and the image applied last
has a rule for it. -/
theorem rx_default_deny {verify : Verify} {calls : List Call} {gs gs' : Gs} {m : Applied}
    {env : Env} {frame : NetFrame} {len : u16}
    (hrun : Transition.run (Transition.observe (engineStep verify) watchApplied)
      (Gs.zero, .nothing) calls = .ok (gs, m))
    (hm : m ≠ .failed) (hip : frame.ethProto = htons ETH_P_IP)
    (hrx : ntfeRx verify env gs frame len = .ok (true, gs'))
    (hhost : ∀ k, (gs.host_tbl (hostFetchBucket frame.ipSaddr)).saddr k = frame.ipSaddr →
      (gs.host_tbl (hostFetchBucket frame.ipSaddr)).pri k = 0) :
    RxWellFormed frame ∧ ∃ cfg, m = .image cfg ∧ HasRule cfg frame.ipProto frame.tcpDport := by
  obtain ⟨hwf, hcase⟩ := ntfeRxExit_accept hip (ntfeRx_true hrx)
  refine ⟨hwf, ?_⟩
  have hfinds : Finds gs.toGsRom (ipv4Sig frame.ipProto frame.tcpDport) := by
    rcases hcase with ⟨k, hk, hpri⟩ | hfinds
    · exact absurd (hhost k (probeBucket_isFirst hk).1) hpri
    · exact hfinds
  have htracks := run_tracks hrun
  cases m with
  | nothing =>
      -- Without an image the table is empty, and no frame's signature is zero.
      have hc : Compiled gs.toGsRom [] := htracks
      obtain ⟨rl, hrl, -⟩ := (hc.finds_iff (ipv4Sig_ne_zero _ _)).mp hfinds
      cases hrl
  | image cfg =>
      have happ : Applies gs cfg := htracks
      exact ⟨cfg, rfl, (happ.rxFinds_iff _ _).mp hfinds⟩
  | failed => exact absurd rfl hm

theorem httpFrame_hasRule : HasRule httpImage httpFrame.ipProto httpFrame.tcpDport := by
  refine ⟨⟨0x0800, 80, 0, 0, 0, IP_P_TCP, 0, 0, 0⟩, ?_, ?_, ?_, ?_⟩ <;> decide

theorem httpFrame_ipv4 : httpFrame.ethProto = htons ETH_P_IP := by decide

theorem httpFrame_wellFormed : RxWellFormed httpFrame := by
  refine ⟨?_, ?_, ?_, ?_⟩ <;> decide

/-- Default deny at the frame to TCP port 80 under the sample image. -/
theorem rx_default_deny_http :
    ∃ gs gs', ntfeRx (fun _ _ _ => false) quietEnv gs httpFrame 64 = .ok (true, gs')
      ∧ RxWellFormed httpFrame ∧ ∃ cfg, Applied.image httpImage = .image cfg
        ∧ HasRule cfg httpFrame.ipProto httpFrame.tcpDport := by
  obtain ⟨gs, hconf, happ, hswept, hpool⟩ := httpImage_applied
  have hrx : ntfeRx (fun _ _ _ => false) quietEnv gs httpFrame 64 = .ok (true, gs) :=
    ntfeRx_of_rule httpFrame_ipv4 httpFrame_wellFormed hpool
      ((happ.rxFinds_iff _ _).mpr httpFrame_hasRule)
  have hrun : Transition.run (Transition.observe (engineStep fun _ _ _ => false) watchApplied)
      (Gs.zero, .nothing) [.configure quietEnv httpImage 126] = .ok (gs, .image httpImage) :=
    Transition.run_cons_ok.mpr ⟨true, (gs, .image httpImage),
      Transition.observe_ok.mpr ⟨hconf, rfl⟩, rfl⟩
  refine ⟨gs, gs, hrx, rx_default_deny hrun (by simp) httpFrame_ipv4 hrx fun k _ => ?_⟩
  rw [(hswept _).pri, HtBucket.zero_pri]

end Ntfw
