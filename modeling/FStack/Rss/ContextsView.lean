import FStack.Rss.Contexts

/-!
# The key without its contexts

`Rss/Key.lean` and `Rss/Contexts.lean` model `ff_rss_thash_build_key` twice: by the keys alone,
which is all `ff_rss_check` and the adjustment of ports see, and with the contexts that hold them.
Here the second is shown to refine the first: `Globals.view` puts the key of a context in the place
of the context, `ThashMem.view` reads off which calls the listed contexts let succeed. One call
of the model with contexts is, in this view, one call of the model with keys (`buildKey_view`), and
in every run it leaves the view of the other processes as it was (`step_view`).
-/

namespace FStack.Rss.Contexts

open Function

/-- The globals with the keys of the contexts in their place. -/
def Globals.view (M : ThashMem) (s : Globals) : RssState where
  __ := s
  thashReady := fun port => s.ready (.v4 port)
  thash6Ready := fun port => s.ready (.v6 port)
  thashCtx := fun port => (s.ctx (.v4 port)).bind M.keyOf
  thash6Ctx := fun port => (s.ctx (.v6 port)).bind M.keyOf

/-- The outcome of the calls for one context, given what is listed. -/
def ThashMem.view (M : ThashMem) (c : CtxCalls) (name : CtxName) : ThashCalls where
  __ := c
  initCtx := c.init && (M.named name).isNone
  existing := if c.find then (M.named name).bind M.keyOf else none

section View

variable {keyLen : Nat → Nat} {port id : Nat} {M M' : ThashMem} {s s' : Globals} {name : CtxName}
  {r : Option Nat} {α : Type} {key : List Byte}

theorem Grows.bind_keyOf (hg : Grows M M') (hM : MemOk keyLen M) {o : Option Nat}
    (ho : ∀ id, o = some id → M.named name = some id) : o.bind M'.keyOf = o.bind M.keyOf := by
  cases o with
  | none => rfl
  | some id =>
    obtain ⟨c, hc, -⟩ := hM.listed _ _ (ho id rfl)
    rw [Option.bind_some, Option.bind_some, ThashMem.keyOf, ThashMem.keyOf, hc, hg.kept _ _ hc]

theorem Globals.view_grows (hg : Grows M M') (hM : MemOk keyLen M) (hs : TablesOk M s) :
    s.view M' = s.view M := by
  simp only [Globals.view, hg.bind_keyOf hM (hs.ctx _)]

theorem update_v4 (f : CtxName → α) (port : Nat) (a : α) :
    (fun p => update f (.v4 port) a (.v4 p)) = update (fun p => f (.v4 p)) port a :=
  update_comp_eq_of_injective f (fun _ _ => CtxName.v4.inj) port a

theorem update_v6 (f : CtxName → α) (port : Nat) (a : α) :
    (fun p => update f (.v6 port) a (.v6 p)) = update (fun p => f (.v6 p)) port a :=
  update_comp_eq_of_injective f (fun _ _ => CtxName.v6.inj) port a

theorem bind_update {β : Type} (g : α → Option β) (f : CtxName → Option α) (n m : CtxName)
    (a : Option α) : (update f n a m).bind g = update (fun m => (f m).bind g) n (a.bind g) m :=
  apply_update (fun _ o => Option.bind o g) f n a m

theorem Globals.view_unready (port : Nat) (s : Globals) :
    (unready port s).view M = { s.view M with
      thashReady := update (s.view M).thashReady port false
      thash6Ready := update (s.view M).thash6Ready port false } := by
  simp [Globals.view, unready, update_v6, update_v4]

theorem Globals.view_reset (port retaSize : Nat) (s : Globals) :
    (reset port retaSize s).view M = { s.view M with
      thashReady := update (s.view M).thashReady port false
      thash6Ready := update (s.view M).thash6Ready port false
      retaSize := update (s.view M).retaSize port retaSize } := by
  simp [Globals.view, reset, unready, update_v4, update_v6]

theorem Globals.view_enter_v4 (port id : Nat) (s : Globals) :
    (enter (.v4 port) id s).view M = { s.view M with
      thashCtx := update (s.view M).thashCtx port (M.keyOf id)
      thashReady := update (s.view M).thashReady port true } := by
  simp [Globals.view, enter, bind_update, update_v4]

theorem Globals.view_enter_v6 (port id : Nat) (s : Globals) :
    (enter (.v6 port) id s).view M = { s.view M with
      thash6Ctx := update (s.view M).thash6Ctx port (M.keyOf id)
      thash6Ready := update (s.view M).thash6Ready port true } := by
  simp [Globals.view, enter, bind_update, update_v6]

theorem Globals.view_publish (malloc : Bool) (port : Nat) (pubKey : List Byte) (s : Globals) :
    (publish malloc port pubKey s).view M =
      Rss.publish malloc port pubKey s.rsskeyLen (s.view M) := by
  cases malloc with
  | false => exact view_unready port s
  | true => rfl

/-- The context that is returned has a key. -/
theorem Opened.exists_key (h : Opened name key M M' (some id)) (hM : MemOk keyLen M) :
    ∃ key', M'.keyOf id = some key' := by
  rcases h.found id rfl with hold | ⟨-, bits, hnew⟩
  · obtain ⟨c, hc, -⟩ := hM.listed _ _ hold
    exact ⟨c.key, by rw [ThashMem.keyOf, h.kept _ _ hc, Option.map_some]⟩
  · exact ⟨_, by rw [ThashMem.keyOf, hnew, Option.map_some]⟩

/-- Opening another context does not change what the calls for `n` return. -/
theorem Opened.view {n : CtxName} (h : Opened name key M M' r) (hM : MemOk keyLen M)
    (hne : n ≠ name) (c : CtxCalls) : M'.view c n = M.view c n := by
  have hn : M'.named n = M.named n := by
    cases r with
    | none => rw [h.named_none rfl]
    | some id => rw [h.named_some id rfl, update_of_ne hne]
  rw [ThashMem.view, ThashMem.view, hn, h.grows.bind_keyOf hM fun _ hid => hid]

variable (hM : MemOk keyLen M) (hs : TablesOk M s)

include hM hs

/-- Opening a context leaves the view as it was, and the key is that of the model with keys. -/
theorem openCtx_view (name : CtxName) (primary : Bool) (c : CtxCalls) (key : List Byte) :
    ∃ M' s' r, Opened name key M M' r ∧ Touched name s s' r ∧ s'.view M' = s.view M ∧
      Rss.openCtx primary (M.view c name) name.sportOff key = r.bind M'.keyOf ∧
      openCtx primary c name key M s = (M', s', r) := by
  obtain ⟨ho, ht⟩ := openCtx_spec name key hM.bounded primary c s
  refine ⟨_, _, _, ho, ht, ?_, ?_, rfl⟩
  · rw [← Globals.view_grows ho.grows hM hs, ht.eq]
    rfl
  unfold openCtx Rss.openCtx
  cases primary with
  | true =>
    cases hn : M.named name with
    | some id => simp [rteThashInitCtx, ThashMem.view, hn]
    | none =>
      cases hi : c.init <;> cases ha : c.addHelper <;> cases hh : c.getHelper <;>
        cases hk : c.getKey <;>
        simp [rteThashInitCtx, ThashMem.view, fetch, hn, hi, ha, hh, hk, rteThashAddHelper,
          modify_concat, ThashMem.keyOf]
  | false =>
    cases hn : M.named name with
    | none => simp [ThashMem.view, hn]
    | some id =>
      cases hf : c.find <;> cases hh : c.getHelper <;> cases hk : c.getKey <;>
        simp [ThashMem.view, fetch, hn, hf, hh, hk]

/-- **Forgetting the contexts**, the function is that of `Rss/Key.lean`, with the outcomes of the
calls that the listed contexts allow. -/
theorem buildKey_view (hlen : s.rsskeyLen = keyLen port)
    (hkey : ∀ key, s.rsskey = some key → keyLen port ≤ key.length) (primary thashAdjust : Bool)
    (calls : KeyCalls) (retaSize : Nat) :
    (buildKey primary thashAdjust calls port retaSize M s).2.view
        (buildKey primary thashAdjust calls port retaSize M s).1 =
      ffRssThashBuildKey primary thashAdjust
        ⟨M.view calls.v4 (.v4 port), M.view calls.v6 (.v6 port), calls.malloc⟩ port retaSize
        (s.view M) := by
  have hs0 : TablesOk M (reset port retaSize s) := hs.of_le rfl rfl (unready_ready_le port s)
  have h4 : (reset port retaSize s).ready (.v4 port) = false := unready_v4 ..
  have hlen0 : (reset port retaSize s).rsskeyLen = keyLen port := hlen
  have hkey0 : ∀ key, (reset port retaSize s).rsskey = some key → keyLen port ≤ key.length := hkey
  unfold buildKey ffRssThashBuildKey
  rw [← Globals.view_reset]
  generalize reset port retaSize s = s at hs0 h4 hlen0 hkey0 ⊢
  have hlV : (s.view M).rsskeyLen = s.rsskeyLen := rfl
  have hbV : (s.view M).keyBuilt = s.keyBuilt := rfl
  cases hk : s.rsskey with
  | none =>
    have hkV : (s.view M).rsskey = none := hk
    simp only [hk, hkV]
  | some key =>
    have hkV : (s.view M).rsskey = some key := hk
    simp only [hk, hkV, hlV, hbV]
    split
    · rfl
    split
    · rfl
    split
    · rfl
    have hkl : (key.take s.rsskeyLen).length = keyLen port := by
      rw [List.length_take, hlen0, min_eq_left (hkey0 key hk)]
    obtain ⟨M₄, s₄, r₄, ho₄, ht₄, hv₄, hk₄, h₄⟩ :=
      openCtx_view hM hs0 (.v4 port) primary calls.v4 (key.take s.rsskeyLen)
    have hl₄ := ht₄.rsskeyLen_eq
    unfold buildV4
    rw [show v4SportOff = (CtxName.v4 port).sportOff from rfl, hk₄, h₄]
    cases r₄ with
    | none => exact hv₄
    | some id₄ =>
      have hM₄ : MemOk keyLen M₄ := ho₄.memOk hM hkl (by rintro _ ⟨⟩)
      have hs₄ : TablesOk M₄ (enter (.v4 port) id₄ s₄) :=
        ((hs0.touched ht₄ h4).grows ho₄.grows).enter ho₄.named_self (ht₄.helper _ rfl)
      obtain ⟨c, hc, -, hcl⟩ := hM₄.listed _ _ ho₄.named_self
      have hkey₄ : M₄.keyOf id₄ = some c.key := by rw [ThashMem.keyOf, hc, Option.map_some]
      have htake : c.key.take s₄.rsskeyLen = c.key :=
        List.take_of_length_le (by rw [hcl, hl₄, hlen0]; exact le_rfl)
      obtain ⟨M₆, s₆, r₆, ho₆, ht₆, hv₆, hk₆, h₆⟩ :=
        openCtx_view hM₄ hs₄ (.v6 port) primary calls.v6 c.key
      have hl₆ : s₆.rsskeyLen = s.rsskeyLen := ht₆.rsskeyLen_eq.trans hl₄
      rw [ho₄.view hM (by simp) calls.v6] at hk₆
      rw [Globals.view_enter_v4, hv₄, hkey₄] at hv₆
      rw [Option.bind_some, hkey₄]
      dsimp only
      rw [hkey₄, Option.getD_some, htake, show v6SportOff = (CtxName.v6 port).sportOff from rfl,
        hk₆, buildV6, h₆]
      cases r₆ with
      | none =>
        dsimp only [Option.bind_none]
        rw [Globals.view_publish, hl₆, hv₆, ← hkV]
        rfl
      | some id₆ =>
        obtain ⟨key₆, hkey₆⟩ := ho₆.exists_key hM₄
        dsimp only
        rw [Option.bind_some, hkey₆, Option.getD_some, Globals.view_publish, Globals.view_enter_v6,
          hv₆, hkey₆, ← hkV]
        dsimp only [enter]
        rw [hl₆]
        rfl

end View

/-- **Every run, forgetting the contexts.** A call is one of the model with keys in the process that
makes it, and nothing in the others. -/
theorem step_view {ι : Type} [DecidableEq ι] {keyLen : Nat → Nat} (primary : ι)
    (run : List (Call ι keyLen)) (c : Call ι keyLen) (j : ι) :
    let S := run.foldl (Sys.step primary) Sys.start
    let S' := S.step primary c
    (S'.procs j).view S'.mem = if j = c.proc then
      ffRssThashBuildKey (decide (j = primary)) c.thashAdjust
        ⟨S.mem.view c.calls.v4 (.v4 c.port), S.mem.view c.calls.v6 (.v6 c.port), c.calls.malloc⟩
        c.port c.retaSize ((c.load (S.procs j)).view S.mem)
      else (S.procs j).view S.mem := by
  intro S S'
  have h : S.Ok keyLen := .run primary run
  split
  next hj =>
    subst hj
    have hload : TablesOk S.mem (c.load (S.procs c.proc)) :=
      (h.tables c.proc).of_le rfl rfl fun _ hn => hn
    rw [← buildKey_view h.mem hload rfl fun key hk => ?_]
    · rw [show S'.procs c.proc = _ from update_self ..]
      rfl
    · obtain ⟨k, -, rfl⟩ := Option.map_eq_some_iff.1 hk
      exact k.2
  next hj =>
    rw [show S'.procs j = S.procs j from update_of_ne hj ..]
    exact Globals.view_grows (h.built primary c).grows h.mem (h.tables j)

end FStack.Rss.Contexts
