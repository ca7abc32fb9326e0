import FStack.Pcb.Select
import FStack.Rss.Agree

/-!
# Where the replies come

`in_pcb_lport_dest` asks `ff_rss_check` where the replies to a source port come. The device decides
it, by the key and the table that `init_port_start` gave it. For a call that is right (`CallOk`, and
`rte_thash_adjust_tuple` as assumed), the two agree.
-/

namespace FStack.Pcb

open List FStack.Rss FStack.Lib.Run

variable {cfg : InitCfg} {dev : InitEnv} {s : InitState} {lcore port queueid m : Nat}
  (hg : cfg.rss.primary = true) (h : initPortStart cfg dev = .ok s)
  (hport : port ∈ cfg.portidList)
  (hq : queueidOf lcore (cfg.portCfgs port).lcoreList = some queueid)
  (hnb : 1 < (cfg.portCfgs port).nbLcores) (hreta : (dev.info port).retaSize = 2 ^ m)
  (hk : KeyAligned cfg dev (portDev cfg port) queueid) {env : LportEnv}
  (hs : env.s = s.toRssState) (hlc : env.lc = initLcoreConf cfg.portidList cfg.portCfgs lcore)

include hg h hport hq hnb hreta hk hs hlc

theorem nicQueue_of_onQueue {A : Type} {F : ThashFamily A} (hF : F.portOff ≤ 34)
    {c : LportCall A} {p : Nat} (hp : OnQueue F env port c p) :
    nicQueue dev s port (F.head c.faddr c.laddr c.fport ++ memBytes (htons p)) = some queueid := by
  have hlen : (F.head c.faddr c.laddr c.fport ++ memBytes (htons p)).length ≤ 36 := by
    simp only [length_append, F.head_length, memBytes_length]
    omega
  obtain ⟨queue, hnic, hcheck⟩ := predicts_of_keyAligned hg h hport hq hnb hreta hk hlen
  rw [OnQueue, F.check_eq, hs, hlc, hcheck] at hp
  rw [hnic, eq_of_beq (Option.some.inj hp)]

/-- **The replies come to the lcore that opened the connection**: after any calls, for IPv4 and for
IPv6, the device puts those to the port that is returned in its queue, if its key is the one the
check uses. -/
theorem reply_queue {cfgs : List RssTblCfg} (hne : ∀ l ∈ cfgs, l.NonZero)
    {T : RssTbl InAddr} {T6 : RssTbl In6Addr} (hT : ffRssTblInit true env.s env.lc cfgs = .ok T)
    (hT6 : ffRssTbl6Init true env.s env.lc cfgs = .ok T6) (lastport : Nat → PortKind → Nat)
    (calls : List Call) {st st' : PcbState}
    (hrun : runCalls env (PcbState.start T T6 lastport) calls = .ok st) (pcbinfo p : Nat) :
    (∀ c, c.rssCheckFlag = true → c.ifp = .veth port →
      CallOk inetThash env (inetLines cfgs) st.inet port c → AdjustAssumed inetThash env port c →
      inPcbLportDest env st (.inet pcbinfo c) = .ok (st', .ok p) →
      nicQueue dev s port (tupleBytes c.faddr c.laddr c.fport (htons p)) = some queueid) ∧
    ∀ c, c.rssCheckFlag = true → c.ifp = .veth port →
      CallOk inet6Thash env (inet6Lines cfgs) st.inet6 port c →
      AdjustAssumed inet6Thash env port c →
      inPcbLportDest env st (.inet6 pcbinfo c) = .ok (st', .ok p) →
      nicQueue dev s port (tuple6Bytes c.faddr c.laddr c.fport (htons p)) = some queueid := by
  obtain ⟨hinv, hinv6⟩ := famInv_run hrun
  refine ⟨fun c hflag hifp hok hadj hcall => ?_, fun c hflag hifp hok hadj hcall => ?_⟩
  · obtain ⟨r, hr, hret⟩ := bind_eq_ok.1 hcall
    have hrep := represents_init (fun _ hc => hne _ (mem_of_inetLines hc)) hT
    have hfresh := fresh_init (fun _ hc => (hne _ (mem_of_inetLines hc)).2) hT
    have hsel := lportDest_selectsOk hrep hfresh hinv hflag hifp hok hadj hr
    exact nicQueue_of_onQueue hg h hport hq hnb hreta hk hs hlc (F := inetThash) (by decide)
      (hsel.port_ok p (congrArg Prod.snd (Except.ok.inj hret))).2.2.2
  · obtain ⟨r, hr, hret⟩ := bind_eq_ok.1 hcall
    have hrep := represents_init (fun _ hc => hne _ (mem_of_inet6Lines hc)) hT6
    have hfresh := fresh_init (fun _ hc => (hne _ (mem_of_inet6Lines hc)).2) hT6
    have hsel := lportDest_selectsOk hrep hfresh hinv6 hflag hifp hok hadj hr
    exact nicQueue_of_onQueue hg h hport hq hnb hreta hk hs hlc (F := inet6Thash) (by decide)
      (hsel.port_ok p (congrArg Prod.snd (Except.ok.inj hret))).2.2.2

omit hg h hport hq hnb hreta hk hs hlc

/-- The second lcore of two, without a table. -/
def secondEnv (s : RssState) : LportEnv where
  s := s
  lc := initLcoreConf [0] (sampleCfg false true [0]).portCfgs 1
  cfg := ⟨false, true⟩
  enabled := false
  queueid_lt
    | 0, _ => by decide
    | _ + 1, h => absurd h (Nat.not_lt_zero 1)

/-- The second call goes on where the first one has stopped. -/
theorem reply_queue_second : ∃ s st st' p,
    initPortStart (sampleCfg false true [0]) (sampleEnv 40 fun _ => false) = .ok s ∧
    runCalls (secondEnv s.toRssState) (.start (.zero inetFamily) (.zero inet6Family) fun _ _ => 0)
      [.inet 0 (soloCall .auto (10000, 65535))] = .ok st ∧
    inPcbLportDest (secondEnv s.toRssState) st (.inet 0 (soloCall .auto (10000, 65535))) =
      .ok (st', .ok p) ∧
    nicQueue (sampleEnv 40 fun _ => false) s 0
      (tupleBytes 0x0200000a 0x0100000a (htons 80) (htons p)) = some 1 := by
  refine ⟨_, _, _, _, rfl, rfl, rfl, (@reply_queue (sampleCfg false true [0])
    (sampleEnv 40 fun _ => false) _ 1 0 1 7 rfl rfl mem_cons_self rfl (by decide) rfl
    ⟨⟨rfl, .inl rfl⟩, _, rfl, ⟨rfl, .inl rfl⟩, .inr (.inr (.inl rfl))⟩ (secondEnv _) rfl rfl []
    (forall_mem_nil _) _ _ rfl rfl (fun _ _ => 0) [.inet 0 (soloCall .auto (10000, 65535))] _ _ rfl
    0 _).1 (soloCall .auto (10000, 65535)) rfl rfl ⟨fun _ e he => ?_, fun _ => .inl rfl⟩ ?_ rfl⟩
  · cases he
  · intro i key _ j head seed desired tuple ht
    cases ht

end FStack.Pcb
