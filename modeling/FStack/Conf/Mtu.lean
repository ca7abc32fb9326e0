import FStack.Conf.Load

/-!
# The MTU of a running port

Model of `ff_dpdk_if_set_mtu` in a primary process without `primary_slim`
(`lib/ff_dpdk_if.c:315-348`), of the request `SIOCSIFMTU` in `ff_veth_ioctl`
(`lib/ff_veth.c:250-265`) with its branch in `ether_ioctl`, and of `ff_mtu_data_room_size`
(`lib/ff_dpdk_if.c:553-564`). The driver answers as it likes: it may set another MTU than it was
asked to. Setting the old MTU back and starting the port succeed.

Results:
* `requestRight_iff`: one request to a port that is in order; `mtu_iff`: any sequence of requests.
-/

namespace FStack.Conf.Mtu

open List

/-- The MTUs of the device, in `ctx` and of the interface, and whether the port is started. -/
structure Port where
  device : Nat
  ctx : Nat
  iface : Int
  started : Bool
  deriving DecidableEq

/-- What `rte_eth_dev_set_mtu` returns, and the MTU it sets if that is 0. -/
structure Answer where
  ret : Int
  actual : Nat

/-- A request: `ifr_mtu`, with the answers to the calls of `rte_eth_dev_set_mtu` and what
`rte_eth_dev_get_mtu` returns. -/
structure Request where
  ifrMtu : Int
  first : Answer
  second : Answer
  get : Int

/-- `ff_dpdk_errno_to_bsd`. -/
def ffDpdkErrnoToBsd (rteErrno : Int) : Int :=
  if rteErrno = 0 then 0 else if rteErrno = -95 then 95 else if rteErrno = -22 then 22
  else if rteErrno = -16 then 16 else 5

/-- `rte_eth_dev_set_mtu`. -/
def Port.set (p : Port) (a : Answer) : Port :=
  if a.ret = 0 then { p with device := a.actual } else p

/-- The old MTU is set back, and the port started. -/
def Port.rollback (p : Port) (oldMtu : Nat) : Port := { p with device := oldMtu, started := true }

/-- `ff_dpdk_if_set_mtu`. -/
def ffDpdkIfSetMtu (mtu : Nat) (r : Request) (p : Port) : Int × Port :=
  let oldMtu := p.ctx
  if r.first.ret = -16 then
    let p := ({ p with started := false } : Port).set r.second
    if r.second.ret ≠ 0 then (ffDpdkErrnoToBsd r.second.ret, p.rollback oldMtu)
    else if r.get ≠ 0 ∨ p.device ≠ mtu then (5, p.rollback oldMtu)
    else (0, { p with started := true, ctx := mtu })
  else if r.first.ret ≠ 0 then (ffDpdkErrnoToBsd r.first.ret, p)
  else (0, { p.set r.first with ctx := mtu })

/-- The new MTU as a `uint16_t`. -/
def Request.newMtu (r : Request) : Nat := (r.ifrMtu % 2 ^ 16).toNat

/-- The request in `ff_veth_ioctl`. -/
def ffVethIoctl (c : Config) (r : Request) (p : Port) : Int × Port :=
  if c.mtuEnable then
    let (error, p) := ffDpdkIfSetMtu r.newMtu r p
    if error = 0 then (0, { p with iface := r.newMtu }) else (error, p)
  else if 1500 < r.ifrMtu then (22, p)
  else (0, { p with iface := r.ifrMtu })

/-- `ff_mtu_data_room_size`. -/
def ffMtuDataRoomSize (maxMtu : Nat) : Option Nat :=
  let frame := maxMtu + 14 + 2 * 4 + 4
  let room := (128 + frame + 63) / 64 * 64
  if 65535 < room then none else some room

/-! ## What a request should do -/

/-- A started port with one MTU. -/
def Port.inOrder (m : Nat) : Port := ⟨m, m, m, true⟩

/-- A full frame fits the buffers that are there in large mode. -/
def Fits (c : Config) (m : Nat) : Prop :=
  c.mtuEnable = true → c.mbufMode = .large → ∀ room, ffMtuDataRoomSize c.maxMtu = some room →
    128 + (m + 14 + 2 * 4 + 4) ≤ room

/-- A request that succeeds leaves an MTU that fits in use; one that fails changes nothing. -/
structure RequestRight (c : Config) (p : Port) (r : Request) : Prop where
  ok : (ffVethIoctl c r p).1 = 0 → ∃ m, (ffVethIoctl c r p).2 = .inOrder m ∧ Fits c m
  failed : (ffVethIoctl c r p).1 ≠ 0 → (ffVethIoctl c r p).2 = p

/-- Every request of a sequence is right. -/
def RunRight (c : Config) : Port → List Request → Prop
  | _, [] => True
  | p, r :: rs => RequestRight c p r ∧ RunRight c (ffVethIoctl c r p).2 rs

/-- The driver takes the MTU. -/
def Request.Taken (r : Request) : Prop :=
  r.first.ret = 0 ∨ r.first.ret = -16 ∧ r.second.ret = 0 ∧ r.get = 0 ∧ r.second.actual = r.newMtu

/-- A request that the driver takes at once is for the MTU that it then has, and one that it takes
is for an MTU that fits; without `mtu_enable`, one that succeeds changes nothing. -/
def Request.Fine (c : Config) (m : Nat) (r : Request) : Prop :=
  if c.mtuEnable then (r.first.ret = 0 → r.first.actual = r.newMtu) ∧ (r.Taken → Fits c r.newMtu)
  else r.ifrMtu ≤ 1500 → r.ifrMtu = m

/-! ## The requests -/

variable {c : Config} {m : Nat} {r : Request}

theorem ffDpdkErrnoToBsd_ne_zero {e : Int} (h : e ≠ 0) : ffDpdkErrnoToBsd e ≠ 0 := by
  unfold ffDpdkErrnoToBsd
  rw [if_neg h]
  repeat' split
  all_goals decide

theorem ffVethIoctl_taken (henable : c.mtuEnable = true) (htaken : r.Taken) :
    ffVethIoctl c r (.inOrder m) =
      (0, ⟨if r.first.ret = 0 then r.first.actual else r.newMtu, r.newMtu, r.newMtu, true⟩) := by
  unfold ffVethIoctl ffDpdkIfSetMtu
  rw [if_pos henable]
  rcases htaken with hfirst | ⟨hbusy, hsecond, hget, hactual⟩
  · simp [hfirst, Port.set, Port.inOrder]
  · simp [hbusy, hsecond, hget, hactual, Port.set]

/-- A request that the driver does not take leaves the port as it was. -/
theorem ffVethIoctl_refused (henable : c.mtuEnable = true) (hnot : ¬ r.Taken) :
    ∃ error ≠ 0, ffVethIoctl c r (.inOrder m) = (error, .inOrder m) := by
  obtain ⟨error, hne, hset⟩ :
      ∃ error ≠ 0, ffDpdkIfSetMtu r.newMtu r (.inOrder m) = (error, .inOrder m) := by
    unfold ffDpdkIfSetMtu
    by_cases hbusy : r.first.ret = -16
    · by_cases hsecond : r.second.ret = 0
      · refine ⟨5, by decide, ?_⟩
        have hread : r.get ≠ 0 ∨ r.second.actual ≠ r.newMtu := by
          by_contra hread
          exact hnot (.inr ⟨hbusy, hsecond, by tauto⟩)
        simp [hbusy, hsecond, Port.set, Port.rollback, Port.inOrder, hread]
      · refine ⟨_, ffDpdkErrnoToBsd_ne_zero hsecond, ?_⟩
        simp [hbusy, hsecond, Port.set, Port.rollback, Port.inOrder]
    · have hfirst : r.first.ret ≠ 0 := fun h => hnot (.inl h)
      exact ⟨_, ffDpdkErrnoToBsd_ne_zero hfirst, by simp [hbusy, hfirst]⟩
  simp [ffVethIoctl, henable, hset, hne]

theorem requestRight_of_refused {p : Port} {error : Int} (hne : error ≠ 0)
    (hcall : ffVethIoctl c r p = (error, p)) : RequestRight c p r := by
  constructor <;> rw [hcall]
  · exact fun h => absurd h hne
  · exact fun _ => rfl

theorem requestRight_iff : RequestRight c (.inOrder m) r ↔ r.Fine c m := by
  unfold Request.Fine
  cases henable : c.mtuEnable with
  | true =>
    by_cases htaken : r.Taken
    · have hcall := ffVethIoctl_taken (m := m) henable htaken
      constructor
      · intro h
        obtain ⟨m', heq, hfits⟩ := h.ok (by rw [hcall])
        rw [hcall] at heq
        obtain ⟨hdevice, rfl, -⟩ := Port.mk.inj heq
        exact ⟨fun hfirst => (if_pos hfirst).symm.trans hdevice, fun _ => hfits⟩
      · rintro ⟨hfirst, hfits⟩
        refine ⟨fun _ => ⟨r.newMtu, ?_, hfits htaken⟩, fun h => absurd (by rw [hcall]) h⟩
        have hdevice : (if r.first.ret = 0 then r.first.actual else r.newMtu) = r.newMtu := by
          split
          next h => exact hfirst h
          · rfl
        rw [hcall, hdevice]
        rfl
    · obtain ⟨error, hne, hcall⟩ := ffVethIoctl_refused (m := m) henable htaken
      refine iff_of_true (requestRight_of_refused hne hcall) ?_
      exact ⟨fun h => absurd (.inl h) htaken, fun h => absurd h htaken⟩
  | false =>
    by_cases hbig : 1500 < r.ifrMtu
    · have hcall : ffVethIoctl c r (.inOrder m) = (22, .inOrder m) := by
        simp [ffVethIoctl, henable, hbig]
      refine iff_of_true (requestRight_of_refused (by decide) hcall) ?_
      exact fun hle => absurd hbig (Int.not_lt.2 hle)
    · have hcall : ffVethIoctl c r (.inOrder m) = (0, ⟨m, m, r.ifrMtu, true⟩) := by
        simp [ffVethIoctl, henable, hbig, Port.inOrder]
      constructor
      · intro h _
        obtain ⟨m', heq, -⟩ := h.ok (by rw [hcall])
        rw [hcall] at heq
        obtain ⟨rfl, -, hiface, -⟩ := Port.mk.inj heq
        exact hiface
      · intro h
        have heq := h (Int.not_lt.1 hbig)
        refine ⟨fun _ => ⟨m, by rw [hcall, heq]; rfl, fun h => ?_⟩,
          fun h => absurd (by rw [hcall]) h⟩
        rw [henable] at h
        cases h

/-- A right request leaves a port in order, for which the same requests are fine. -/
theorem RequestRight.next (h : RequestRight c (.inOrder m) r) : ∃ m',
    (ffVethIoctl c r (.inOrder m)).2 = .inOrder m' ∧ ∀ r' : Request, r'.Fine c m' ↔ r'.Fine c m := by
  by_cases hok : (ffVethIoctl c r (.inOrder m)).1 = 0
  · obtain ⟨m', heq, -⟩ := h.ok hok
    refine ⟨m', heq, fun r' => ?_⟩
    unfold Request.Fine
    split
    · exact Iff.rfl
    next henable =>
      have hdevice : m = m' := by
        have hdevice := congrArg Port.device heq
        unfold ffVethIoctl at hdevice
        rw [if_neg henable] at hdevice
        split at hdevice <;> exact hdevice
      rw [hdevice]
  · exact ⟨m, h.failed hok, fun _ => Iff.rfl⟩

/-- What `ff_check_config` accepts has a data room. -/
theorem dataRoom_of_check (hcheck : checkMtu c = true) (henable : c.mtuEnable = true)
    (hlarge : c.mbufMode = .large) : (ffMtuDataRoomSize c.maxMtu).isSome = true := by
  unfold checkMtu at hcheck
  rw [if_pos henable] at hcheck
  simp [hlarge] at hcheck
  unfold ffMtuDataRoomSize
  simp
  omega

/-- **Requests are right** exactly if each is fine; and a `max_mtu` that is accepted in large mode
has a data room. -/
theorem mtu_iff (c : { c : Config // checkMtu c = true }) (m : Nat) (rs : List Request) :
    (RunRight c (.inOrder m) rs ↔ ∀ r ∈ rs, r.Fine c m) ∧
    (c.1.mtuEnable = false ∨ c.1.mbufMode ≠ .large ∨
      (ffMtuDataRoomSize c.1.maxMtu).isSome = true) := by
  constructor
  · induction rs generalizing m with
    | nil => simp [RunRight]
    | cons r rs ih =>
      rw [RunRight, forall_mem_cons, ← requestRight_iff]
      refine and_congr_right fun hright => ?_
      obtain ⟨m', heq, hfine⟩ := hright.next
      rw [heq, ih m']
      exact forall₂_congr fun r' _ => hfine r'
  · by_cases hlarge : c.1.mbufMode = .large
    · cases henable : c.1.mtuEnable with
      | false => exact .inl rfl
      | true => exact .inr (.inr (dataRoom_of_check c.2 henable hlarge))
    · exact .inr (.inl hlarge)

/-- Large mode with the least `max_mtu`. -/
def largeConfig : Config :=
  { Config.default with mtuEnable := true, mbufMode := .large, maxMtu := 1500 }

/-- A driver that takes 1501 and sets 1500, which nothing reads back; and an MTU of 9000, with
buffers for 1500. -/
theorem mtu_not : ¬ RunRight largeConfig (.inOrder 1500) [⟨1501, ⟨0, 1500⟩, ⟨0, 0⟩, 0⟩] ∧
    ¬ RunRight largeConfig (.inOrder 1500) [⟨9000, ⟨0, 9000⟩, ⟨0, 0⟩, 0⟩] := by
  constructor
  · intro h
    have hfine : _ ∧ _ := requestRight_iff.1 h.1
    exact absurd (hfine.1 rfl) (by decide)
  · intro h
    have hfine : _ ∧ _ := requestRight_iff.1 h.1
    exact absurd (hfine.2 (.inl rfl) rfl rfl 1664 rfl) (by decide)

end FStack.Conf.Mtu
