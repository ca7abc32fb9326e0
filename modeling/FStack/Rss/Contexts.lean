import FStack.Rss.Key

/-!
# The thash contexts behind the published key

`Rss/Key.lean` models `ff_rss_thash_build_key` (`lib/ff_dpdk_if.c:3458-3612`) by the keys of the
contexts it ends up with. This module models the contexts themselves: the list of contexts by name
that the `rte_thash` library keeps in the memory shared by all processes
(`dpdk/lib/hash/rte_thash.c:206-355`), the per-port tables of each process that point into it, and
the exits of the function that free a context.

* `ThashMem` is the library's memory. A context is named by its position in the list of all contexts
  ever made, so that a freed one can be told from a live one. `rte_thash_init_ctx` refuses a name
  that is listed; `rte_thash_find_existing` returns what is listed.
* The two tables of a family are one, by the context's name: `ready`, `ctx` and `sportH` at
  `.v4 port` are `rss_thash_ready[port]`, `rss_thash_ctx[port]` and `rss_thash_sport_h[port]`.
* `CtxCalls` and `KeyCalls` say which calls fail. A failed `rte_thash_add_helper` may have written
  its bits.
* `Sys` is one primary process and any number of secondary ones. A call is atomic: a secondary looks
  for the contexts before or after a call of the primary, not in its middle. The length of the key
  is that of the device (`dev_info.hash_key_size`), the same in every process.

Results:
* `key_published`: after every run of calls of any processes, flags, contexts and published key are
  consistent.

`Rss/ContextsView.lean` shows that without the contexts this is the function of `Rss/Key.lean`.
-/

namespace FStack.Rss.Contexts

open Function List

/-! ## The library -/

/-- `"ff_rss_thash_%u"` and `"ff_rss_thash6_%u"`. -/
inductive CtxName where
  | v4 (port : Nat)
  | v6 (port : Nat)
deriving DecidableEq

/-- The port that a context's name holds. -/
def CtxName.port : CtxName → Nat
  | v4 port => port
  | v6 port => port

/-- The offset of the family's `"sport"` helper. -/
def CtxName.sportOff : CtxName → Nat
  | v4 _ => v4SportOff
  | v6 _ => v6SportOff

/-- `struct rte_thash_ctx`. -/
structure Ctx where
  key : List Byte
  /-- `rte_thash_free_ctx` was called. -/
  freed : Bool

/-- The contexts in DPDK's shared memory. -/
structure ThashMem where
  /-- Every context ever made. -/
  ctxs : List Ctx
  /-- `rte_thash_tailq`. -/
  named : CtxName → Option Nat

/-- No context was made. -/
def ThashMem.start : ThashMem := ⟨[], fun _ => none⟩

/-- `rte_thash_get_key`. -/
def ThashMem.keyOf (M : ThashMem) (ctx : Nat) : Option (List Byte) := (M.ctxs[ctx]?).map Ctx.key

/-- `rte_thash_init_ctx`; `ok` says whether there was memory. -/
def rteThashInitCtx (ok : Bool) (name : CtxName) (key : List Byte) (M : ThashMem) :
    Option (ThashMem × Nat) :=
  if ok && (M.named name).isNone then
    some (⟨M.ctxs ++ [⟨key, false⟩], update M.named name (some M.ctxs.length)⟩, M.ctxs.length)
  else none

/-- `rte_thash_add_helper`: the bits of the helper's span are written anew. -/
def rteThashAddHelper (bits : Nat → Bool) (off ctx : Nat) (M : ThashMem) : ThashMem :=
  { M with
    ctxs := M.ctxs.modify ctx fun c => { c with key := overwrite c.key off helperSpan bits } }

/-- `rte_thash_free_ctx`. -/
def rteThashFreeCtx (ctx : Nat) (M : ThashMem) : ThashMem where
  ctxs := M.ctxs.modify ctx fun c => { c with freed := true }
  named := fun name => if M.named name = some ctx then none else M.named name

/-! ## The function -/

/-- What the calls made for one context return. -/
structure CtxCalls where
  init : Bool
  addHelper : Bool
  helperBits : Nat → Bool
  find : Bool
  getHelper : Bool
  getKey : Bool

/-- The calls one run of `ff_rss_thash_build_key` makes. -/
structure KeyCalls where
  v4 : CtxCalls
  v6 : CtxCalls
  malloc : Bool

/-- The globals of a process. -/
structure Globals where
  rsskey : Option (List Byte)
  rsskeyLen : Nat
  /-- `ff_rss_key_built`. -/
  keyBuilt : Bool
  /-- `rss_reta_size[port]`. -/
  retaSize : Nat → Nat
  ready : CtxName → Bool
  ctx : CtxName → Option Nat
  /-- The context whose helper the table holds. -/
  sportH : CtxName → Option Nat

/-- The state at program start. -/
def Globals.start : Globals where
  rsskey := some defaultRsskey40bytes
  rsskeyLen := 40
  keyBuilt := false
  retaSize := fun _ => 0
  ready := fun _ => false
  ctx := fun _ => none
  sportH := fun _ => none

section

variable (primary : Bool)

/-- `rte_thash_get_helper` and `rte_thash_get_key`; a primary frees its context if one fails. -/
def fetch (c : CtxCalls) (name : CtxName) (ctx : Nat) (M : ThashMem)
    (s : Globals) : ThashMem × Globals × Option Nat :=
  let s := { s with
    sportH := update s.sportH name (if c.getHelper then some ctx else none) }
  if c.getHelper && c.getKey then (M, s, some ctx)
  else (if primary then rteThashFreeCtx ctx M else M, s, none)

/-- The context of one family, `none` when it was given up. -/
def openCtx (c : CtxCalls) (name : CtxName) (key : List Byte) (M : ThashMem)
    (s : Globals) : ThashMem × Globals × Option Nat :=
  if primary then
    match rteThashInitCtx c.init name key M with
    | none => (M, s, none)
    | some (M, ctx) =>
      let M := rteThashAddHelper c.helperBits name.sportOff ctx M
      if c.addHelper then fetch primary c name ctx M s else (rteThashFreeCtx ctx M, s, none)
  else
    match if c.find then M.named name else none with
    | none => (M, s, none)
    | some ctx => fetch primary c name ctx M s

/-- `rss_thash_ctx[port_id] = ctx; rss_thash_ready[port_id] = 1`, or the same for IPv6. -/
def enter (name : CtxName) (ctx : Nat) (s : Globals) : Globals :=
  { s with ctx := update s.ctx name (some ctx)
           ready := update s.ready name true }

/-- Both ready flags of the port set to 0. -/
def unready (port : Nat) (s : Globals) : Globals :=
  { s with ready := update (update s.ready (.v4 port) false) (.v6 port) false }

/-- The `publish:` block. -/
def publish (malloc : Bool) (port : Nat) (pubKey : List Byte) (s : Globals) : Globals :=
  if malloc then { s with rsskey := some (pubKey.take s.rsskeyLen), keyBuilt := true }
  else unready port s

/-- From the second `snprintf` on: the IPv6 context, seeded by the key of the IPv4 one, and
`publish:`. -/
def buildV6 (calls : KeyCalls) (port : Nat) (keyV4Buf : List Byte) (M : ThashMem)
    (s : Globals) : ThashMem × Globals :=
  match openCtx primary calls.v6 (.v6 port) keyV4Buf M s with
  | (M, s, none) => (M, publish calls.malloc port keyV4Buf s)
  | (M, s, some ctxV6) =>
    (M, publish calls.malloc port ((M.keyOf ctxV6).getD []) (enter (.v6 port) ctxV6 s))

/-- From the first `snprintf` on. -/
def buildV4 (calls : KeyCalls) (port : Nat) (key : List Byte) (M : ThashMem)
    (s : Globals) : ThashMem × Globals :=
  match openCtx primary calls.v4 (.v4 port) (key.take s.rsskeyLen) M s with
  | (M, s, none) => (M, s)
  | (M, s, some ctxV4) =>
    let keyV4Buf := ((M.keyOf ctxV4).getD []).take s.rsskeyLen
    buildV6 primary calls port keyV4Buf M (enter (.v4 port) ctxV4 s)

end

/-- The first three assignments. -/
def reset (port retaSize : Nat) (s : Globals) : Globals :=
  { unready port s with retaSize := update s.retaSize port retaSize }

/-- `ff_rss_thash_build_key`. -/
def buildKey (primary thashAdjust : Bool) (calls : KeyCalls) (port retaSize : Nat) (M : ThashMem)
    (s : Globals) : ThashMem × Globals :=
  let s := reset port retaSize s
  match s.rsskey with
  | none => (M, s)
  | some key =>
    if !thashAdjust || s.rsskeyLen == 0 then (M, s)
    else if decide (retaSize < 2) || s.keyBuilt then (M, s)
    else if 64 < s.rsskeyLen then (M, s)  -- sizeof(key_v4_buf)
    else buildV4 primary calls port key M s

/-! ## Opening a context -/

/-- What opening the context `name` from `key` does to the memory: no context that was there before
changes, and the one that is returned is listed. It was listed before, or it is new. -/
structure Opened (name : CtxName) (key : List Byte) (M M' : ThashMem) (r : Option Nat) : Prop where
  kept : ∀ (id : Nat) c, M.ctxs[id]? = some c → M'.ctxs[id]? = some c
  named_none : r = none → M'.named = M.named
  named_some : ∀ id, r = some id → M'.named = update M.named name (some id)
  found : ∀ id, r = some id → M.named name = some id ∨
    M.named name = none ∧ ∃ bits,
      M'.ctxs[id]? = some ⟨overwrite key name.sportOff helperSpan bits, false⟩

/-- What it does to the globals: at most the helper's table changes, at `name`. -/
structure Touched (name : CtxName) (s s' : Globals) (r : Option Nat) : Prop where
  eq : s' = { s with sportH := s'.sportH }
  other : ∀ n, n ≠ name → s'.sportH n = s.sportH n
  helper : ∀ id, r = some id → s'.sportH name = some id

section Opening

variable {name : CtxName} {key : List Byte} {M : ThashMem}

theorem Opened.refl : Opened name key M M none :=
  ⟨fun _ _ h => h, fun _ => rfl, fun _ h => (nomatch h), fun _ h => nomatch h⟩

theorem Touched.refl (s : Globals) : Touched name s s none :=
  ⟨rfl, fun _ _ => rfl, fun _ h => nomatch h⟩

namespace Touched

variable {s s' : Globals} {r : Option Nat}

variable (h : Touched name s s' r)

include h

theorem ready_eq : s'.ready = s.ready := by rw [h.eq]

theorem ctx_eq : s'.ctx = s.ctx := by rw [h.eq]

theorem rsskey_eq : s'.rsskey = s.rsskey := by rw [h.eq]

theorem rsskeyLen_eq : s'.rsskeyLen = s.rsskeyLen := by rw [h.eq]

end Touched

/-- The listed contexts have been made. -/
def ThashMem.Bounded (M : ThashMem) : Prop :=
  ∀ name id, M.named name = some id → id < M.ctxs.length

theorem modify_concat {α : Type} (f : α → α) (a : α) :
    ∀ l : List α, (l ++ [a]).modify l.length f = l ++ [f a]
  | [] => rfl
  | b :: l => by simp [modify_concat f a l]

/-- The memory with one more context, listed as `named` says. -/
def ThashMem.push (M : ThashMem) (c : Ctx) (named : CtxName → Option Nat) : ThashMem :=
  ⟨M.ctxs ++ [c], named⟩

theorem ThashMem.push_kept (c : Ctx) (named : CtxName → Option Nat) (id : Nat) (d : Ctx)
    (h : M.ctxs[id]? = some d) : (M.push c named).ctxs[id]? = some d := by
  obtain ⟨hlt, -⟩ := List.getElem?_eq_some_iff.1 h
  rw [ThashMem.push, getElem?_append_left hlt, h]

/-- The new context, freed again, leaves the list of names as it was. -/
theorem Opened.of_freed (hb : M.Bounded) (hnone : M.named name = none) (c : Ctx) :
    Opened name key M (rteThashFreeCtx M.ctxs.length
      (M.push c (update M.named name (some M.ctxs.length)))) none := by
  refine ⟨fun id d h => ?_, fun _ => ?_, fun _ h => (nomatch h), fun _ h => nomatch h⟩
  · rw [rteThashFreeCtx, ThashMem.push, modify_concat]
    exact M.push_kept _ M.named id d h
  · funext n
    have hnew : M.named n ≠ some M.ctxs.length := fun h => lt_irrefl _ (hb n _ h)
    rcases eq_or_ne n name with rfl | hn
    · simp [rteThashFreeCtx, ThashMem.push, hnone]
    · simp [rteThashFreeCtx, ThashMem.push, hn, hnew]

theorem fetch_touched (primary : Bool) (c : CtxCalls) (ctx : Nat) (s : Globals) :
    Touched name s (fetch primary c name ctx M s).2.1 (fetch primary c name ctx M s).2.2 := by
  unfold fetch
  dsimp only
  split
  next hok =>
    rw [Bool.and_eq_true] at hok
    refine ⟨rfl, fun n hn => update_of_ne hn _ _, ?_⟩
    rintro _ ⟨⟩
    simp [hok.1]
  · exact ⟨rfl, fun n hn => update_of_ne hn _ _, fun _ h => nomatch h⟩

variable (name key) in
theorem openCtx_spec (hb : M.Bounded) (primary : Bool) (c : CtxCalls) (s : Globals) :
    Opened name key M (openCtx primary c name key M s).1 (openCtx primary c name key M s).2.2 ∧
      Touched name s (openCtx primary c name key M s).2.1
        (openCtx primary c name key M s).2.2 := by
  unfold openCtx
  cases primary with
  | true =>
    rw [if_pos rfl]
    unfold rteThashInitCtx
    split
    · exact ⟨.refl, .refl s⟩
    rename_i M' ctx hinit
    split at hinit
    next hok =>
      rw [Bool.and_eq_true, Option.isNone_iff_eq_none] at hok
      cases hinit
      have hadd : rteThashAddHelper c.helperBits name.sportOff M.ctxs.length
          ⟨M.ctxs ++ [⟨key, false⟩], update M.named name (some M.ctxs.length)⟩ =
          M.push ⟨overwrite key name.sportOff helperSpan c.helperBits, false⟩
            (update M.named name (some M.ctxs.length)) := by
        rw [rteThashAddHelper, ThashMem.push, modify_concat]
      rw [hadd]
      split
      · refine ⟨?_, fetch_touched ..⟩
        unfold fetch
        dsimp only
        split
        · refine ⟨M.push_kept _ _, fun h => (nomatch h), ?_, ?_⟩
          · rintro _ ⟨⟩
            rfl
          rintro _ ⟨⟩
          exact .inr ⟨hok.2, c.helperBits, by simp [ThashMem.push]⟩
        · exact .of_freed hb hok.2 _
      · exact ⟨.of_freed hb hok.2 _, .refl s⟩
    · cases hinit
  | false =>
    rw [if_neg (by decide)]
    split
    · exact ⟨.refl, .refl s⟩
    rename_i ctx hfind
    have hnamed : M.named name = some ctx := by
      split at hfind
      · exact hfind
      · cases hfind
    refine ⟨?_, fetch_touched ..⟩
    unfold fetch
    dsimp only
    split
    · refine ⟨fun _ _ h => h, fun h => (nomatch h), ?_, ?_⟩
      · rintro _ ⟨⟩
        rw [← hnamed, update_eq_self]
      · rintro _ ⟨⟩
        exact .inl hnamed
    · exact .refl

end Opening

/-! ## What is known between the calls -/

/-- The memory, for ports with keys of `keyLen` bytes: a listed context is live, and an IPv6 context
was made from the key of the port's IPv4 context. -/
structure MemOk (keyLen : Nat → Nat) (M : ThashMem) : Prop where
  listed : ∀ name (id : Nat), M.named name = some id →
    ∃ c, M.ctxs[id]? = some c ∧ c.freed = false ∧ c.key.length = keyLen name.port
  seeded : ∀ port (id6 : Nat), M.named (.v6 port) = some id6 → ∃ (id4 : Nat) (c4 c6 : Ctx),
    M.named (.v4 port) = some id4 ∧ M.ctxs[id4]? = some c4 ∧ M.ctxs[id6]? = some c6 ∧
      ∀ i, i < v6SportOff → bitAt c6.key i = bitAt c4.key i

/-- The tables of a process: an entry is a listed context, and a ready entry has its helper. -/
structure TablesOk (M : ThashMem) (s : Globals) : Prop where
  ctx : ∀ name id, s.ctx name = some id → M.named name = some id
  ready : ∀ name, s.ready name = true → (s.ctx name).isSome = true ∧ s.sportH name = s.ctx name

/-- Nothing that was there is lost. -/
structure Grows (M M' : ThashMem) : Prop where
  kept : ∀ (id : Nat) c, M.ctxs[id]? = some c → M'.ctxs[id]? = some c
  named : ∀ name id, M.named name = some id → M'.named name = some id

theorem Grows.refl (M : ThashMem) : Grows M M := ⟨fun _ _ h => h, fun _ _ h => h⟩

theorem Grows.trans {M M' M'' : ThashMem} (h : Grows M M') (h' : Grows M' M'') : Grows M M'' :=
  ⟨fun id c hc => h'.kept id c (h.kept id c hc), fun n id hn => h'.named n id (h.named n id hn)⟩

theorem MemOk.bounded {keyLen : Nat → Nat} {M : ThashMem} (h : MemOk keyLen M) : M.Bounded := by
  intro name id hn
  obtain ⟨c, hc, -⟩ := h.listed name id hn
  exact (List.getElem?_eq_some_iff.1 hc).1

variable {id port : Nat} {keyLen : Nat → Nat} {name : CtxName} {key pubKey : List Byte}
  {M M' : ThashMem} {r : Option Nat} {s s' : Globals}

theorem Opened.grows (h : Opened name key M M' r) : Grows M M' := by
  refine ⟨h.kept, fun n id hn => ?_⟩
  cases r with
  | none => rwa [h.named_none rfl]
  | some id' =>
    rw [h.named_some id' rfl]
    rcases eq_or_ne n name with rfl | hne
    · rcases h.found id' rfl with hold | ⟨hnone, -⟩
      · rw [update_self, ← hold, hn]
      · rw [hnone] at hn
        cases hn
    · rwa [update_of_ne hne]

theorem Opened.named_self (h : Opened name key M M' (some id)) : M'.named name = some id := by
  rw [h.named_some id rfl, update_self]

/-- A name that was not listed before is that of the new context. -/
theorem Opened.new {n : CtxName} (h : Opened name key M M' r) (hn : M.named n = none)
    (hn' : M'.named n = some id) : n = name ∧ ∃ bits,
      M'.ctxs[id]? = some ⟨overwrite key name.sportOff helperSpan bits, false⟩ := by
  cases r with
  | none =>
    rw [h.named_none rfl, hn] at hn'
    cases hn'
  | some id' =>
    rw [h.named_some id' rfl] at hn'
    rcases eq_or_ne n name with rfl | hne
    · rw [update_self] at hn'
      cases hn'
      rcases h.found id rfl with hold | ⟨-, hnew⟩
      · rw [hn] at hold
        cases hold
      · exact ⟨rfl, hnew⟩
    · rw [update_of_ne hne, hn] at hn'
      cases hn'

theorem bitAt_overwrite_of_lt (key : List Byte) {lo : Nat} (len : Nat) (f : Nat → Bool) {i : Nat}
    (hi : i < lo) : bitAt (overwrite key lo len f) i = bitAt key i := by
  rcases lt_or_ge i (8 * key.length) with hlt | hge
  · rw [bitAt_overwrite _ _ _ _ hlt, if_neg (by omega)]
  · have hend : key.length ≤ i / 8 := by omega
    have hend' : (overwrite key lo len f).length ≤ i / 8 := by rwa [overwrite_length]
    rw [bitAt, bitAt, getD_eq_getElem?_getD, getD_eq_getElem?_getD,
      getElem?_eq_none hend, getElem?_eq_none hend']

/-- **Opening a context keeps the memory in order**, when an IPv6 one is made from the key of the
IPv4 one. -/
theorem Opened.memOk (h : Opened name key M M' r) (hM : MemOk keyLen M)
    (hlen : key.length = keyLen name.port)
    (hseed : ∀ port, name = .v6 port → ∃ (id4 : Nat) (c4 : Ctx), M.named (.v4 port) = some id4 ∧
      M.ctxs[id4]? = some c4 ∧ ∀ i, i < v6SportOff → bitAt key i = bitAt c4.key i) :
    MemOk keyLen M' := by
  have hg := h.grows
  refine ⟨fun n id hn => ?_, fun port id6 hn => ?_⟩
  · cases hold : M.named n with
    | none =>
      obtain ⟨rfl, bits, hnew⟩ := h.new hold hn
      exact ⟨_, hnew, rfl, by rw [overwrite_length, hlen]⟩
    | some id' =>
      obtain ⟨c, hc, hlive⟩ := hM.listed n id' hold
      rw [hg.named n id' hold] at hn
      cases hn
      exact ⟨c, hg.kept _ c hc, hlive⟩
  · cases hold : M.named (.v6 port) with
    | none =>
      obtain ⟨rfl, bits, hnew⟩ := h.new hold hn
      obtain ⟨id4, c4, hn4, hc4, hbits⟩ := hseed port rfl
      refine ⟨id4, c4, _, hg.named _ _ hn4, hg.kept _ _ hc4, hnew, fun i hi => ?_⟩
      exact (bitAt_overwrite_of_lt key helperSpan bits hi).trans (hbits i hi)
    | some id' =>
      obtain ⟨id4, c4, c6, hn4, hc4, hc6, hbits⟩ := hM.seeded port id' hold
      rw [hg.named _ id' hold] at hn
      cases hn
      exact ⟨id4, c4, c6, hg.named _ _ hn4, hg.kept _ _ hc4, hg.kept _ _ hc6, hbits⟩

namespace TablesOk

variable {M M' : ThashMem} {s s' : Globals} {name : CtxName}

theorem grows (h : TablesOk M s) (hg : Grows M M') : TablesOk M' s :=
  ⟨fun n id hn => hg.named n id (h.ctx n id hn), h.ready⟩

/-- Entries may lose their flag. -/
theorem of_le (h : TablesOk M s) (hctx : s'.ctx = s.ctx) (hh : s'.sportH = s.sportH)
    (hready : ∀ n, s'.ready n = true → s.ready n = true) : TablesOk M s' :=
  ⟨hctx ▸ h.ctx, fun n hn => hctx ▸ hh ▸ h.ready n (hready n hn)⟩

theorem touched (h : TablesOk M s) (ht : Touched name s s' r) (hready : s.ready name = false) :
    TablesOk M s' := by
  refine ⟨ht.ctx_eq ▸ h.ctx, fun n hn => ?_⟩
  rw [ht.ready_eq] at hn
  have hne : n ≠ name := by
    rintro rfl
    rw [hready] at hn
    cases hn
  rw [ht.ctx_eq, ht.other n hne]
  exact h.ready n hn

theorem enter (h : TablesOk M s) (hn : M.named name = some id) (hh : s.sportH name = some id) :
    TablesOk M (enter name id s) := by
  refine ⟨fun n i hi => ?_, fun n hr => ?_⟩
  · rcases eq_or_ne n name with rfl | hne
    · simp only [Contexts.enter, update_self] at hi
      rw [hn, hi]
    · simp only [Contexts.enter, update_of_ne hne] at hi
      exact h.ctx n i hi
  · rcases eq_or_ne n name with rfl | hne
    · simp [Contexts.enter, hh]
    · simp only [Contexts.enter, update_of_ne hne] at hr ⊢
      exact h.ready n hr

end TablesOk

theorem unready_ready_le (port : Nat) (s : Globals) (n : CtxName)
    (h : (unready port s).ready n = true) : s.ready n = true := by
  unfold unready at h
  dsimp only at h
  rcases eq_or_ne n (.v6 port) with rfl | h6
  · simp at h
  rcases eq_or_ne n (.v4 port) with rfl | h4
  · simp at h
  · rwa [update_of_ne h6, update_of_ne h4] at h

/-! ## One call -/

/-- What one call for `port` leaves, from the globals `s` to `s'` with the memory `M'`. -/
structure Published (port : Nat) (M' : ThashMem) (s s' : Globals) : Prop where
  /-- With `rss_thash_ready` the published key is the IPv4 context's key in its first 128 bits. -/
  v4 : s'.ready (.v4 port) = true → ∃ (id : Nat) (c : Ctx) (key : List Byte),
    s'.ctx (.v4 port) = some id ∧ M'.ctxs[id]? = some c ∧ s'.rsskey = some key ∧
      s'.rsskeyLen = key.length ∧ key.length = c.key.length ∧
      ∀ i, i < 128 → bitAt key i = bitAt c.key i
  /-- With `rss_thash6_ready` it is the IPv6 context's key. -/
  v6 : s'.ready (.v6 port) = true → ∃ (id : Nat) (c : Ctx),
    s'.ctx (.v6 port) = some id ∧ M'.ctxs[id]? = some c ∧ s'.rsskey = some c.key ∧
      s'.rsskeyLen = c.key.length
  /-- With neither it is the one from before. -/
  kept : s'.ready (.v4 port) = false → s'.ready (.v6 port) = false →
    s'.rsskey = s.rsskey ∧ s'.rsskeyLen = s.rsskeyLen
  v6_v4 : s'.ready (.v6 port) = true → s'.ready (.v4 port) = true

/-- The invariants and what one call leaves. -/
structure Built (keyLen : Nat → Nat) (port : Nat) (M M' : ThashMem) (s s' : Globals) : Prop where
  memOk : MemOk keyLen M'
  grows : Grows M M'
  tablesOk : TablesOk M' s'
  published : Published port M' s s'

@[simp] theorem unready_v4 (port : Nat) (s : Globals) :
    (unready port s).ready (.v4 port) = false := by
  simp [unready]

@[simp] theorem unready_v6 (port : Nat) (s : Globals) :
    (unready port s).ready (.v6 port) = false := by
  simp [unready]

theorem Published.of_unready (h4 : s'.ready (.v4 port) = false) (h6 : s'.ready (.v6 port) = false)
    (hkey : s'.rsskey = s.rsskey) (hlen : s'.rsskeyLen = s.rsskeyLen) : Published port M' s s' where
  v4 h := by rw [h4] at h; cases h
  v6 h := by rw [h6] at h; cases h
  kept _ _ := ⟨hkey, hlen⟩
  v6_v4 h := by rw [h6] at h; cases h

/-- What is known of the globals `s'` at the label `publish:`, where `pubKey` is to be published. -/
structure AtPublish (port : Nat) (M' : ThashMem) (s s' : Globals) (pubKey : List Byte) : Prop where
  rsskey : s'.rsskey = s.rsskey
  rsskeyLen : s'.rsskeyLen = s.rsskeyLen
  length : pubKey.length = s.rsskeyLen
  ready : s'.ready (.v4 port) = true
  v4 : ∃ (id : Nat) (c : Ctx), s'.ctx (.v4 port) = some id ∧ M'.ctxs[id]? = some c ∧
    pubKey.length = c.key.length ∧ ∀ i, i < 128 → bitAt pubKey i = bitAt c.key i
  v6 : s'.ready (.v6 port) = true → ∃ (id : Nat) (c : Ctx), s'.ctx (.v6 port) = some id ∧
    M'.ctxs[id]? = some c ∧ pubKey = c.key

theorem AtPublish.published (h : AtPublish port M' s s' pubKey) (malloc : Bool) :
    Published port M' s (publish malloc port pubKey s') := by
  cases malloc with
  | false => exact .of_unready (unready_v4 ..) (unready_v6 ..) h.rsskey h.rsskeyLen
  | true =>
    have htake : pubKey.take s'.rsskeyLen = pubKey :=
      take_of_length_le (by rw [h.rsskeyLen, h.length])
    have hlen : s'.rsskeyLen = pubKey.length := by rw [h.rsskeyLen, h.length]
    rw [publish, if_pos rfl, htake]
    refine ⟨fun _ => ?_, fun h6 => ?_, fun h4 => ?_, fun _ => h.ready⟩
    · obtain ⟨id, c, hid, hc, hlc, hbits⟩ := h.v4
      exact ⟨id, c, pubKey, hid, hc, rfl, hlen, hlc, hbits⟩
    · obtain ⟨id, c, hid, hc, hpub⟩ := h.v6 h6
      exact ⟨id, c, hid, hc, by rw [hpub], by rw [← hpub]; exact hlen⟩
    · rw [show s'.ready (.v4 port) = true from h.ready] at h4
      cases h4

theorem TablesOk.publish (h : TablesOk M s) (malloc : Bool) :
    TablesOk M (publish malloc port pubKey s) := by
  cases malloc with
  | false => exact h.of_le rfl rfl (unready_ready_le port s)
  | true => exact h.of_le rfl rfl fun _ hn => hn

/-- From the IPv6 context on, when the IPv4 one is in the table. -/
theorem buildV6_spec {id4 : Nat} {c4 : Ctx} (hM : MemOk keyLen M) (hs : TablesOk M s)
    (hlen : s.rsskeyLen = keyLen port) (h4 : s.ready (.v4 port) = true)
    (h6 : s.ready (.v6 port) = false) (hctx : s.ctx (.v4 port) = some id4)
    (hc4 : M.ctxs[id4]? = some c4) (primary : Bool) (calls : KeyCalls) :
    Built keyLen port M (buildV6 primary calls port c4.key M s).1 s
      (buildV6 primary calls port c4.key M s).2 := by
  have hn4 := hs.ctx _ _ hctx
  obtain ⟨c, hc, -, hl4⟩ := hM.listed _ _ hn4
  rw [hc4] at hc
  cases hc
  obtain ⟨ho, ht⟩ := openCtx_spec (.v6 port) c4.key hM.bounded primary calls.v6 s
  unfold buildV6
  generalize openCtx primary calls.v6 (.v6 port) c4.key M s = r at ho ht ⊢
  obtain ⟨M', s', r⟩ := r
  dsimp only at ho ht
  have hM' : MemOk keyLen M' := by
    refine ho.memOk hM hl4 ?_
    rintro _ ⟨⟩
    exact ⟨id4, c4, hn4, hc4, fun _ _ => rfl⟩
  have hs' : TablesOk M' s' := (hs.touched ht h6).grows ho.grows
  have hr := ht.ready_eq
  have hc := ht.ctx_eq
  cases r with
  | none =>
    refine ⟨hM', ho.grows, hs'.publish _, AtPublish.published ?_ _⟩
    exact
      { rsskey := ht.rsskey_eq
        rsskeyLen := ht.rsskeyLen_eq
        length := hl4.trans hlen.symm
        ready := by rw [hr, h4]
        v4 := ⟨id4, c4, by rw [hc, hctx], ho.grows.kept _ _ hc4, rfl, fun _ _ => rfl⟩
        v6 := fun h => by rw [hr, h6] at h; cases h }
  | some id6 =>
    have hn6 := ho.named_self
    obtain ⟨c6, hc6, -, hl6⟩ := hM'.listed _ _ hn6
    have hbits : ∀ i, i < v6SportOff → bitAt c6.key i = bitAt c4.key i := by
      obtain ⟨i4, d4, d6, hi4, hd4, hd6, hbits⟩ := hM'.seeded _ _ hn6
      rw [ho.grows.named _ _ hn4] at hi4
      cases hi4
      rw [ho.grows.kept _ _ hc4] at hd4
      rw [hc6] at hd6
      cases hd4
      cases hd6
      exact hbits
    have hget : (M'.keyOf id6).getD [] = c6.key := by simp [ThashMem.keyOf, hc6]
    have hne : (CtxName.v4 port) ≠ .v6 port := by simp
    dsimp only
    rw [hget]
    refine ⟨hM', ho.grows, (hs'.enter hn6 (ht.helper _ rfl)).publish _, AtPublish.published ?_ _⟩
    exact
      { rsskey := ht.rsskey_eq
        rsskeyLen := ht.rsskeyLen_eq
        length := hl6.trans hlen.symm
        ready := by simp [enter, hne, hr, h4]
        v4 := ⟨id4, c4, by simp [enter, hne, hc, hctx], ho.grows.kept _ _ hc4,
          hl6.trans hl4.symm, fun i hi => hbits i (hi.trans (by decide))⟩
        v6 := fun _ => ⟨id6, c6, by simp [enter], hc6, rfl⟩ }

/-- From the IPv4 context on. -/
theorem buildV4_spec (hM : MemOk keyLen M) (hs : TablesOk M s) (hlen : s.rsskeyLen = keyLen port)
    (hkey : keyLen port ≤ key.length) (h4 : s.ready (.v4 port) = false)
    (h6 : s.ready (.v6 port) = false) (primary : Bool) (calls : KeyCalls) :
    Built keyLen port M (buildV4 primary calls port key M s).1 s
      (buildV4 primary calls port key M s).2 := by
  have hkl : (key.take s.rsskeyLen).length = keyLen port := by
    rw [length_take, hlen, min_eq_left hkey]
  obtain ⟨ho, ht⟩ := openCtx_spec (.v4 port) (key.take s.rsskeyLen) hM.bounded primary calls.v4 s
  unfold buildV4
  generalize openCtx primary calls.v4 (.v4 port) (key.take s.rsskeyLen) M s = r at ho ht ⊢
  obtain ⟨M', s', r⟩ := r
  dsimp only at ho ht
  have hM' : MemOk keyLen M' := ho.memOk hM hkl (by rintro _ ⟨⟩)
  have hs' : TablesOk M' s' := (hs.touched ht h4).grows ho.grows
  have hr := ht.ready_eq
  have hk := ht.rsskey_eq
  have hl := ht.rsskeyLen_eq
  cases r with
  | none =>
    exact ⟨hM', ho.grows, hs', .of_unready (by rw [hr, h4]) (by rw [hr, h6]) hk hl⟩
  | some id4 =>
    have hn4 := ho.named_self
    obtain ⟨c4, hc4, -, hl4⟩ := hM'.listed _ _ hn4
    have hget : ((M'.keyOf id4).getD []).take s'.rsskeyLen = c4.key := by
      rw [ThashMem.keyOf, hc4, Option.map_some, Option.getD_some, take_of_length_le]
      rw [hl, hlen, hl4]
      exact le_rfl
    have hne : (CtxName.v6 port) ≠ .v4 port := by simp
    dsimp only
    rw [hget]
    have hb := buildV6_spec hM' (hs'.enter hn4 (ht.helper _ rfl)) (hl.trans hlen)
      (by simp [enter]) (by simp [enter, hne, hr, h6]) (by simp [enter]) hc4 primary calls
    refine ⟨hb.memOk, ho.grows.trans hb.grows, hb.tablesOk, hb.published.v4, hb.published.v6,
      fun h4 h6 => ?_, hb.published.v6_v4⟩
    obtain ⟨hk', hl'⟩ := hb.published.kept h4 h6
    exact ⟨hk'.trans hk, hl'.trans hl⟩

/-- **One call**, over all of its exits. -/
theorem buildKey_spec (hM : MemOk keyLen M) (hs : TablesOk M s) (hlen : s.rsskeyLen = keyLen port)
    (hkey : ∀ key, s.rsskey = some key → keyLen port ≤ key.length) (primary thashAdjust : Bool)
    (calls : KeyCalls) (retaSize : Nat) :
    Built keyLen port M (buildKey primary thashAdjust calls port retaSize M s).1 s
      (buildKey primary thashAdjust calls port retaSize M s).2 := by
  have hs0 : TablesOk M (reset port retaSize s) := hs.of_le rfl rfl (unready_ready_le port s)
  have hexit : Built keyLen port M M s (reset port retaSize s) :=
    ⟨hM, .refl M, hs0, .of_unready (unready_v4 ..) (unready_v6 ..) rfl rfl⟩
  unfold buildKey
  dsimp only
  split
  · exact hexit
  rename_i key hk
  split
  · exact hexit
  split
  · exact hexit
  split
  · exact hexit
  have hb := buildV4_spec hM hs0 hlen (hkey key hk) (unready_v4 ..) (unready_v6 ..) primary calls
  exact ⟨hb.memOk, hb.grows, hb.tablesOk, hb.published.v4, hb.published.v6, hb.published.kept,
    hb.published.v6_v4⟩

/-! ## Runs of calls -/

/-- The processes and the memory they share. -/
structure Sys (ι : Type) where
  mem : ThashMem
  procs : ι → Globals

/-- A call of `ff_rss_thash_build_key`. The RSS block of `init_port_start` has set `rsskey` and its
length just before, the length to that of the device. -/
structure Call (ι : Type) (keyLen : Nat → Nat) where
  proc : ι
  port : Nat
  retaSize : Nat
  thashAdjust : Bool
  rsskey : Option { key : List Byte // keyLen port ≤ key.length }
  calls : KeyCalls

section Runs

variable {ι : Type} [DecidableEq ι] {keyLen : Nat → Nat}

/-- No process has set up a port. -/
def Sys.start : Sys ι := ⟨.start, fun _ => .start⟩

/-- The globals the function is called with. -/
def Call.load (c : Call ι keyLen) (s : Globals) : Globals :=
  { s with rsskey := c.rsskey.map (·.1), rsskeyLen := keyLen c.port }

/-- One call, by the process `primary` or a secondary one. -/
def Sys.step (primary : ι) (S : Sys ι) (c : Call ι keyLen) : Sys ι :=
  let r := buildKey (decide (c.proc = primary)) c.thashAdjust c.calls c.port c.retaSize S.mem
    (c.load (S.procs c.proc))
  ⟨r.1, update S.procs c.proc r.2⟩

/-- The shared contexts are right, and each process points to those of its ports. -/
structure Sys.Ok (keyLen : Nat → Nat) (S : Sys ι) : Prop where
  mem : MemOk keyLen S.mem
  tables : ∀ j, TablesOk S.mem (S.procs j)

omit [DecidableEq ι] in
theorem Sys.Ok.start : (Sys.start : Sys ι).Ok keyLen where
  mem := ⟨fun _ _ h => (nomatch h), fun _ _ h => nomatch h⟩
  tables := fun _ => ⟨fun _ _ h => (nomatch h), fun _ h => nomatch h⟩

variable {S : Sys ι}

theorem Sys.Ok.built (h : S.Ok keyLen) (primary : ι) (c : Call ι keyLen) :
    Built keyLen c.port S.mem (S.step primary c).mem (c.load (S.procs c.proc))
      ((S.step primary c).procs c.proc) := by
  have hload : TablesOk S.mem (c.load (S.procs c.proc)) :=
    (h.tables c.proc).of_le rfl rfl fun _ hn => hn
  have hkey : ∀ key, (c.load (S.procs c.proc)).rsskey = some key → keyLen c.port ≤ key.length := by
    intro key hk
    obtain ⟨k, -, rfl⟩ := Option.map_eq_some_iff.1 hk
    exact k.2
  have hb := buildKey_spec h.mem hload rfl hkey (decide (c.proc = primary)) c.thashAdjust c.calls
    c.retaSize
  simpa [Sys.step] using hb

theorem Sys.Ok.step (h : S.Ok keyLen) (primary : ι) (c : Call ι keyLen) :
    (S.step primary c).Ok keyLen := by
  have hb := h.built primary c
  refine ⟨hb.memOk, fun j => ?_⟩
  rcases eq_or_ne j c.proc with rfl | hne
  · exact hb.tablesOk
  · rw [show (S.step primary c).procs j = S.procs j from update_of_ne hne ..]
    exact (h.tables j).grows hb.grows

theorem Sys.Ok.run (primary : ι) (run : List (Call ι keyLen)) :
    (run.foldl (Sys.step primary) Sys.start).Ok keyLen :=
  foldlRecOn (motive := fun S : Sys ι => S.Ok keyLen) run (Sys.step primary) .start
    fun _ h c _ => h.step primary c

/-- **The key survives every failure.** After any run of calls by any processes, one more call
leaves flags, contexts and published key of its port consistent, and no process has a freed context
in a table with its ready flag set. -/
theorem key_published (primary : ι) (run : List (Call ι keyLen)) (c : Call ι keyLen) :
    let S := run.foldl (Sys.step primary) Sys.start
    let S' := S.step primary c
    Published c.port S'.mem (c.load (S.procs c.proc)) (S'.procs c.proc) ∧
      ∀ j name, (S'.procs j).ready name = true → ∃ (id : Nat) (ctx : Ctx),
        (S'.procs j).ctx name = some id ∧ (S'.procs j).sportH name = some id ∧
          S'.mem.ctxs[id]? = some ctx ∧ ctx.freed = false := by
  intro S S'
  have h : S.Ok keyLen := .run primary run
  have h' : S'.Ok keyLen := h.step primary c
  refine ⟨(h.built primary c).published, fun j name hr => ?_⟩
  obtain ⟨hsome, hh⟩ := (h'.tables j).ready name hr
  obtain ⟨id, hid⟩ := Option.isSome_iff_exists.1 hsome
  obtain ⟨ctx, hctx, hlive, -⟩ := h'.mem.listed _ _ ((h'.tables j).ctx _ _ hid)
  exact ⟨id, ctx, hid, hh.trans hid, hctx, hlive⟩

end Runs

end FStack.Rss.Contexts
