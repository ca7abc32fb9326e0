import FStack.Rx.Fanout

/-!
# What becomes of one packet

`process_packets` (`lib/ff_dpdk_if.c:2071-2220`) on one packet, no dispatcher being registered. An
ARP or NDP packet goes to the stack, a clone of it to every other queue unless it came from a ring,
and a clone to the KNI on its owner (`spawns_spread`); any other packet has one taker, which is no
dispatch ring (`processPacket_other`).

The clones are followed by what they weigh: `Spawns e m ks s s'` says that from `s` to `s'` at most
one clone of `m` per sink of `ks` was made, and, if nothing fails, exactly one.
-/

namespace FStack.Rx

open List

variable {e : Env} {m : Mbuf} {s s' s'' : St} {ks ks' : List Sink} {k : Sink}

/-! ## Clones -/

/-- The weight of all that was handed over. -/
def St.weigh (g : Sink → Nat) (s : St) : Nat := (s.log.map fun h => g h.sink).sum

theorem weigh_hand (g : Sink → Nat) (m : Mbuf) (k : Sink) :
    (s.hand m k).weigh g = s.weigh g + g k := by
  unfold St.weigh St.hand
  rw [map_append, sum_append]
  rfl

/-- From `s` to `s'` clones of `m` were made for the sinks `ks`; each may have been freed. -/
structure Spawns (e : Env) (m : Mbuf) (ks : List Sink) (s s' : St) : Prop where
  weigh_le : ∀ g : Sink → Nat, g .free = 0 →
    s.weigh g ≤ s'.weigh g ∧ s'.weigh g ≤ s.weigh g + (ks.map g).sum
  /-- The KNI has limits of its own. -/
  weigh_eq : Lossless e → ∀ g : Sink → Nat, g .free = 0 → g .kni = 0 →
    s'.weigh g = s.weigh g + (ks.map g).sum
  made_le : s'.made.length ≤ s.made.length + ks.length
  clone : ∀ h ∈ s'.log, h ∈ s.log ∨ h.pkt.origin = m.origin ∧
    ∀ j, h.sink = .ring j → m.frame.Copy h.pkt.frame ∧ Sink.ring j ∈ ks

theorem spawns_idle (hlog : s'.log = s.log) (hmade : s'.made = s.made) : Spawns e m [] s s' where
  weigh_le := fun g _ => by
    unfold St.weigh
    rw [hlog]
    exact ⟨le_rfl, le_rfl⟩
  weigh_eq := fun _ g _ _ => by
    unfold St.weigh
    rw [hlog]
    rfl
  made_le := by rw [hmade]; exact le_rfl
  clone := fun _ hh => .inl (hlog ▸ hh)

theorem spawns_refl : Spawns e m [] s s := spawns_idle rfl rfl

theorem Spawns.trans (h : Spawns e m ks s s') (h' : Spawns e m ks' s' s'') :
    Spawns e m (ks ++ ks') s s'' where
  weigh_le := by
    intro g hg
    have h1 := h.weigh_le g hg
    have h2 := h'.weigh_le g hg
    rw [map_append, sum_append]
    omega
  weigh_eq := by
    intro hl g hg hk
    rw [h'.weigh_eq hl g hg hk, h.weigh_eq hl g hg hk, map_append, sum_append, add_assoc]
  made_le := by
    have h1 := h.made_le
    have h2 := h'.made_le
    rw [length_append]
    omega
  clone := by
    intro x hx
    rcases h'.clone x hx with hx | ⟨horig, hring⟩
    · rcases h.clone x hx with hx | ⟨horig, hring⟩
      · exact .inl hx
      · exact .inr ⟨horig, fun j hj =>
          ⟨(hring j hj).1, mem_append_left _ (hring j hj).2⟩⟩
    · exact .inr ⟨horig, fun j hj => ⟨(hring j hj).1, mem_append_right _ (hring j hj).2⟩⟩

/-- A clone that is handed to `k`, or freed though it was meant for `k`. -/
theorem spawns_clone (mc : Mbuf) (k' : Sink) (hlog : s'.log = s.log ++ [⟨mc, k'⟩])
    (hmade : s'.made.length ≤ s.made.length + 1) (horig : mc.origin = m.origin)
    (hcopy : ∀ j, k' = .ring j → m.frame.Copy mc.frame)
    (hk : k' = k ∨ k' = .free ∧ (Lossless e → k = .kni)) : Spawns e m [k] s s' where
  weigh_le := by
    intro g hg
    have hw : s'.weigh g = s.weigh g + g k' := by
      unfold St.weigh
      rw [hlog, map_append, sum_append]
      rfl
    rw [hw, map_singleton, sum_singleton]
    rcases hk with rfl | ⟨rfl, -⟩
    · omega
    · omega
  weigh_eq := by
    intro hl g hg hkni
    have hw : s'.weigh g = s.weigh g + g k' := by
      unfold St.weigh
      rw [hlog, map_append, sum_append]
      rfl
    rw [hw, map_singleton, sum_singleton]
    rcases hk with rfl | ⟨rfl, hk⟩
    · rfl
    · rw [hk hl, hg, hkni]
  made_le := hmade
  clone := by
    intro x hx
    rw [hlog] at hx
    rcases mem_append.mp hx with hx | hx
    · exact .inl hx
    · rw [mem_singleton.mp hx]
      refine .inr ⟨horig, fun j hj => ⟨hcopy j hj, ?_⟩⟩
      dsimp only at hj
      rcases hk with rfl | ⟨rfl, -⟩
      · rw [hj]
        exact mem_singleton_self _
      · cases hj

/-- No clone, because something failed. -/
theorem spawns_nothing (hlog : s'.log = s.log) (hmade : s'.made.length ≤ s.made.length + 1)
    (hl : ¬Lossless e) : Spawns e m [k] s s' where
  weigh_le := by
    intro g _
    have hw : s'.weigh g = s.weigh g := by
      unfold St.weigh
      rw [hlog]
    rw [hw]
    exact ⟨Nat.le_refl _, Nat.le_add_right _ _⟩
  weigh_eq := fun h => absurd h hl
  made_le := hmade
  clone := by
    intro x hx
    rw [hlog] at hx
    exact .inl hx

theorem cloneSegs_lossless (hl : Lossless e) (segs : List Seg) (a : Nat) :
    (cloneSegs e a segs).2.1 = true := by
  induction segs generalizing a with
  | nil => rfl
  | cons seg segs ih =>
    obtain ⟨buf, hbuf⟩ := Option.isSome_iff_exists.mp (hl.1 a)
    unfold cloneSegs
    rw [hbuf]
    exact ih (a + 1)

/-- `pktmbuf_deep_clone` gives a copy, or fails. -/
theorem pktmbufDeepClone_cases (e : Env) (m : Mbuf) (s : St) :
    (∃ mc s', pktmbufDeepClone e s m = (some mc, s') ∧ mc.origin = m.origin ∧
      m.frame.Copy mc.frame ∧ s'.log = s.log ∧ s'.made.length = s.made.length + 1) ∨
    ∃ s', pktmbufDeepClone e s m = (none, s') ∧ ∀ k, Spawns e m [k] s s' := by
  unfold pktmbufDeepClone
  dsimp only
  cases halloc : e.alloc s.cnt.allocs with
  | none =>
    refine .inr ⟨_, rfl, fun k => spawns_nothing rfl (Nat.le_succ _) fun hl => ?_⟩
    have := hl.1 s.cnt.allocs
    rw [halloc] at this
    cases this
  | some buf =>
    dsimp only
    split
    · refine .inl ⟨_, _, rfl, rfl, copy_deepAttach m.frame buf, rfl, ?_⟩
      unfold St.build
      rw [length_append, length_singleton]
    next hok =>
      refine .inr ⟨_, rfl, fun k => spawns_clone _ .free rfl ?_ rfl nofun (.inr ⟨rfl, fun hl => ?_⟩)⟩
      · unfold St.hand St.build
        rw [length_append, length_singleton]
      · exact absurd (cloneSegs_lossless hl _ _) hok

theorem spawns_fanOne (j : Nat) :
    Spawns e m (if j = e.queueId then [] else [.ring j]) s (fanOne e m s j) := by
  unfold fanOne
  split
  · exact spawns_refl
  · rcases pktmbufDeepClone_cases e m s with
      ⟨mc, s', heq, horig, hcopy, hlog, hmade⟩ | ⟨s', heq, hspawn⟩
    · rw [heq]
      unfold dispatchEnqueue
      dsimp only
      split
      · refine spawns_clone mc (.ring j) ?_ hmade.le horig
          (fun _ _ => hcopy) (.inl rfl)
        rw [← hlog]
        rfl
      next hring =>
        refine spawns_clone mc .free ?_ hmade.le horig nofun
          (.inr ⟨rfl, fun hl => absurd (hl.2 _) hring⟩)
        rw [← hlog]
        rfl
    · rw [heq]
      exact hspawn _

/-- The sinks of the loop over the queues. -/
def fanSinks (e : Env) (js : List Nat) : List Sink :=
  js.flatMap fun j => if j = e.queueId then [] else [.ring j]

theorem spawns_foldl (js : List Nat) (s : St) :
    Spawns e m (fanSinks e js) s (js.foldl (fanOne e m) s) := by
  induction js generalizing s with
  | nil => exact spawns_refl
  | cons j js ih => exact (spawns_fanOne j).trans (ih _)

theorem spawns_fanOut : Spawns e m (fanSinks e (range e.nbQueues)) s (fanOut e s m) :=
  spawns_foldl _ s

@[simp] theorem ffAddVlanTag_origin (m : Mbuf) : (ffAddVlanTag m).origin = m.origin := by
  unfold ffAddVlanTag
  split
  · rfl
  · split <;> rfl

/-- What `ff_kni_enqueue` does with a packet. -/
theorem ffKniEnqueue_log (filter : FilterReturn) (m : Mbuf) :
    (ffKniEnqueue e s filter m).made = s.made ∧
      ((ffKniEnqueue e s filter m).log = s.log ++ [⟨m, .kni⟩] ∨
        (ffKniEnqueue e s filter m).log = s.log ++ [⟨m, .free⟩]) := by
  have herror (t : St) : (kniError e t m).made = t.made ∧
      (kniError e t m).log = t.log ++ [⟨m, .free⟩] := by
    unfold kniError
    split <;> exact ⟨rfl, rfl⟩
  unfold ffKniEnqueue
  dsimp only
  split
  · split
    · exact ⟨rfl, .inl rfl⟩
    · exact ⟨(herror _).1, .inr (herror _).2⟩
  · exact ⟨(herror _).1, .inr (herror _).2⟩

theorem spawns_kniCopy (filter : FilterReturn) : Spawns e m [.kni] s (kniCopy e s filter m) := by
  unfold kniCopy
  rcases pktmbufDeepClone_cases e m s with
    ⟨mc, s', heq, horig, -, hlog, hmade⟩ | ⟨s', heq, hspawn⟩
  · rw [heq]
    obtain ⟨hm, h | h⟩ := ffKniEnqueue_log (e := e) (s := s') filter (ffAddVlanTag mc)
    · refine spawns_clone _ .kni (by rw [h, hlog]) (by rw [hm, hmade]) ?_ nofun (.inl rfl)
      rw [ffAddVlanTag_origin, horig]
    · refine spawns_clone _ .free (by rw [h, hlog]) (by rw [hm, hmade]) ?_ nofun
        (.inr ⟨rfl, fun _ => rfl⟩)
      rw [ffAddVlanTag_origin, horig]
  · rw [heq]
    exact hspawn _

/-! ## One packet -/

/-- The sinks an ARP or NDP packet is cloned for. -/
def cloneSinks (e : Env) (fromRing : Bool) : List Sink :=
  (if fromRing then [] else fanSinks e (List.range e.nbQueues)) ++
    if e.enableKni && e.runtimeOwner then [.kni] else []

/-- **An ARP or NDP packet**: its clones, and the packet itself to the stack. -/
theorem processPacket_spread (hdisp : e.dispatcher = none)
    (hclass : e.filter m.frame = .arp ∨ e.filter m.frame = .ndp) {fromRing : Bool} {i : Nat}
    (hshed : shedsSyn e fromRing i m = false) (cnt : Counters) :
    ∃ s, Spawns e m (cloneSinks e fromRing) (.start cnt) s ∧
      processPacket e fromRing i (.start cnt) m = s.hand m .stack := by
  have key (s₀ : St) (h₀ : Spawns e m [] (.start cnt) s₀) :
      ∃ s, Spawns e m (cloneSinks e fromRing) (.start cnt) s ∧
        deliver e fromRing s₀ m m.frame = s.hand m .stack := by
    unfold deliver
    rw [if_pos hclass]
    have hfan : Spawns e m (if fromRing then [] else fanSinks e (range e.nbQueues)) s₀
        (if fromRing then s₀ else fanOut e s₀ m) := by
      cases fromRing with
      | true => exact spawns_refl
      | false => exact spawns_fanOut
    refine ⟨_, h₀.trans (hfan.trans ?_), rfl⟩
    split
    · exact spawns_kniCopy _
    · exact spawns_refl
  unfold processPacket
  rw [hshed, if_neg Bool.false_ne_true]
  cases fromRing with
  | true => exact key _ spawns_refl
  | false =>
    rw [if_neg Bool.false_ne_true, hdisp]
    exact key _ (spawns_idle rfl rfl)

/-- **Any other packet** has one taker. -/
theorem processPacket_other (hdisp : e.dispatcher = none)
    (hclass : ¬(e.filter m.frame = .arp ∨ e.filter m.frame = .ndp)) (fromRing : Bool) (i : Nat)
    (cnt : Counters) :
    ∃ m' k, (processPacket e fromRing i (.start cnt) m).log = [⟨m', k⟩] ∧
      (processPacket e fromRing i (.start cnt) m).made = [] ∧ m'.origin = m.origin ∧
      ∀ j, k ≠ .ring j := by
  have key (fromRing : Bool) (s₀ : St) (hlog : s₀.log = []) (hmade : s₀.made = []) :
      ∃ m' k, (deliver e fromRing s₀ m m.frame).log = [⟨m', k⟩] ∧
        (deliver e fromRing s₀ m m.frame).made = [] ∧ m'.origin = m.origin ∧ ∀ j, k ≠ .ring j := by
    have hstack : ∃ m' k, (s₀.hand m .stack).log = [⟨m', k⟩] ∧ (s₀.hand m .stack).made = [] ∧
        m'.origin = m.origin ∧ ∀ j, k ≠ .ring j := by
      refine ⟨m, .stack, ?_, hmade, rfl, nofun⟩
      unfold St.hand
      rw [hlog]
      rfl
    have hkni : ∃ m' k, (ffKniEnqueue e s₀ (e.filter m.frame) (ffAddVlanTag m)).log = [⟨m', k⟩] ∧
        (ffKniEnqueue e s₀ (e.filter m.frame) (ffAddVlanTag m)).made = [] ∧
        m'.origin = m.origin ∧ ∀ j, k ≠ .ring j := by
      obtain ⟨hm, h | h⟩ :=
        ffKniEnqueue_log (e := e) (s := s₀) (e.filter m.frame) (ffAddVlanTag m)
      · exact ⟨_, .kni, by rw [h, hlog]; rfl, by rw [hm, hmade], ffAddVlanTag_origin m, nofun⟩
      · exact ⟨_, .free, by rw [h, hlog]; rfl, by rw [hm, hmade], ffAddVlanTag_origin m, nofun⟩
    unfold deliver
    rw [if_neg hclass]
    split
    · split
      · exact hkni
      · exact hstack
      · split
        · exact hkni
        · exact hstack
      · exact hstack
    · exact hstack
  unfold processPacket
  split
  · exact ⟨m, .free, rfl, rfl, rfl, nofun⟩
  · split
    · exact key true _ rfl rfl
    · rw [hdisp]
      exact key false _ rfl rfl

end FStack.Rx
